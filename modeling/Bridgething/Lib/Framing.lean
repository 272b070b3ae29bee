/-
Incremental decoding of framed streams.  A grammar says what one look at the
front of the unread symbols decides; a decoder pulls items out of a buffer that
only ever grows at its end.  A decoder that reads a grammar gives the grammar's
items however the stream was cut into chunks.
-/
import Mathlib

namespace Framing

universe u v w

variable {β : Type u} {ι : Type v} {σ : Type w}

/-- What the front of the unread symbols decides: nothing yet, that its first
symbol starts no item, or that its first `size` symbols are one item. -/
inductive Look (ι : Type v)
  | more
  | skip
  | take (size : Nat) (item : ι)
deriving Repr, DecidableEq

/-- A grammar whose decisions never change once enough symbols are there. -/
structure Grammar (β : Type u) (ι : Type v) where
  look : List β → Look ι
  look_nil : look [] = .more
  look_size : ∀ {s : List β} {size : Nat} {item : ι},
    look s = .take size item → 0 < size ∧ size ≤ s.length
  look_append : ∀ (s t : List β), look s ≠ .more → look (s ++ t) = look s

theorem Grammar.length_pos_of_look_ne_more (G : Grammar β ι) {s : List β}
    (h : G.look s ≠ .more) : 0 < s.length := by
  cases s with
  | nil => exact absurd G.look_nil h
  | cons head tail => exact Nat.succ_pos _

/-- The items of a complete stream. -/
def Grammar.parse (G : Grammar β ι) (s : List β) : List ι :=
  match _h : G.look s with
  | .more => []
  | .skip => G.parse (s.drop 1)
  | .take size item => item :: G.parse (s.drop size)
termination_by s.length
decreasing_by
  · have hpos := G.length_pos_of_look_ne_more (s := s) (by simp [_h])
    simp only [List.length_drop]
    omega
  · have hsize := G.look_size _h
    simp only [List.length_drop]
    omega

theorem Grammar.parse_more (G : Grammar β ι) {s : List β}
    (h : G.look s = .more) : G.parse s = [] := by
  rw [Grammar.parse]
  split <;> simp_all

theorem Grammar.parse_skip (G : Grammar β ι) {s : List β}
    (h : G.look s = .skip) : G.parse s = G.parse (s.drop 1) := by
  rw [Grammar.parse]
  split <;> simp_all

theorem Grammar.parse_take (G : Grammar β ι) {s : List β} {size : Nat}
    {item : ι} (h : G.look s = .take size item) :
    G.parse s = item :: G.parse (s.drop size) := by
  rw [Grammar.parse]
  split <;> simp_all

@[simp] theorem Grammar.parse_nil (G : Grammar β ι) : G.parse [] = [] :=
  G.parse_more G.look_nil

/-- A stretch in which no position starts an item leaves no trace. -/
theorem Grammar.parse_drop_of_skips (G : Grammar β ι) (count : Nat)
    (s : List β) (h : ∀ pos < count, G.look (s.drop pos) = .skip) :
    G.parse s = G.parse (s.drop count) := by
  induction count generalizing s with
  | zero => simp
  | succ n ih =>
      have hhead : G.look s = .skip := by simpa using h 0 (Nat.succ_pos n)
      rw [G.parse_skip hhead, ih (s.drop 1)]
      · rw [List.drop_drop, Nat.add_comm]
      · intro pos hpos
        have := h (pos + 1) (Nat.succ_lt_succ hpos)
        rwa [List.drop_drop, Nat.add_comm]

/-- An item at the front of a buffer stays the first item however the buffer
grows. -/
theorem Grammar.parse_take_append (G : Grammar β ι) {s : List β} {size : Nat}
    {item : ι} (h : G.look s = .take size item) (t : List β) :
    G.parse (s ++ t) = item :: G.parse (s.drop size ++ t) := by
  have hgrown : G.look (s ++ t) = .take size item := by
    rw [G.look_append s t (by simp [h]), h]
  rw [G.parse_take hgrown, List.drop_append_of_le_length (G.look_size h).2]

/-- An incremental decoder.  One pull reads the buffer, gives at most one item
and says what is left unread; an item always costs at least one symbol. -/
structure Decoder (σ : Type w) (β : Type u) (ι : Type v) where
  pull : σ → List β → Option ι × σ × List β
  shrinks : ∀ {state : σ} {buf : List β} {item : ι} {next : σ × List β},
    pull state buf = (some item, next) → next.2.length < buf.length

/-- Pull until the decoder gives nothing. -/
def Decoder.drain (D : Decoder σ β ι) (state : σ) (buf : List β) :
    List ι × σ × List β :=
  match _h : D.pull state buf with
  | (none, next) => ([], next)
  | (some item, next) =>
      let rest := D.drain next.1 next.2
      (item :: rest.1, rest.2)
termination_by buf.length
decreasing_by exact D.shrinks _h

/-- Append the chunks one at a time and drain after each. -/
def Decoder.feed (D : Decoder σ β ι) (state : σ) (buf : List β) :
    List (List β) → List ι × σ × List β
  | [] => ([], state, buf)
  | chunk :: rest =>
      let drained := D.drain state (buf ++ chunk)
      let fed := D.feed drained.2.1 drained.2.2 rest
      (drained.1 ++ fed.1, fed.2)

theorem Decoder.drain_idle (D : Decoder σ β ι) {state : σ} {buf : List β}
    {next : σ × List β} (h : D.pull state buf = (none, next)) :
    D.drain state buf = ([], next) := by
  rw [Decoder.drain]
  split <;> simp_all

theorem Decoder.drain_item (D : Decoder σ β ι) {state : σ} {buf : List β}
    {item : ι} {next : σ × List β}
    (h : D.pull state buf = (some item, next)) :
    D.drain state buf =
      (item :: (D.drain next.1 next.2).1, (D.drain next.1 next.2).2) := by
  rw [Decoder.drain]
  split <;> simp_all

/-- The decoder reads the grammar: under an invariant of its state and buffer,
a pull that gives an item gives the grammar's next one, and a pull that gives
nothing forgets only symbols that can no longer matter. -/
structure Decoder.Reads (D : Decoder σ β ι) (G : Grammar β ι)
    (Inv : σ → List β → Prop) : Prop where
  grow : ∀ {state : σ} {buf : List β} (more : List β),
    Inv state buf → Inv state (buf ++ more)
  item : ∀ {state : σ} {buf : List β} {item : ι} {next : σ × List β},
    Inv state buf → D.pull state buf = (some item, next) →
      Inv next.1 next.2 ∧
        ∀ more, G.parse (buf ++ more) = item :: G.parse (next.2 ++ more)
  idle : ∀ {state : σ} {buf : List β} {next : σ × List β},
    Inv state buf → D.pull state buf = (none, next) →
      Inv next.1 next.2 ∧ G.parse buf = [] ∧
        ∀ more, G.parse (buf ++ more) = G.parse (next.2 ++ more)

section Reads

variable {D : Decoder σ β ι} {G : Grammar β ι} {Inv : σ → List β → Prop}

/-- Draining gives the items that are complete, keeps the invariant and leaves
the meaning of every continuation as it was. -/
theorem Decoder.Reads.drain (hreads : D.Reads G Inv) (state : σ)
    (buf : List β) (hinv : Inv state buf) :
    Inv (D.drain state buf).2.1 (D.drain state buf).2.2 ∧
      G.parse (D.drain state buf).2.2 = [] ∧
      ∀ more, G.parse (buf ++ more) =
        (D.drain state buf).1 ++ G.parse ((D.drain state buf).2.2 ++ more) := by
  induction hlength : buf.length using Nat.strongRecOn
    generalizing state buf with
  | ind length ih =>
      subst hlength
      rcases hpull : D.pull state buf with ⟨found, next⟩
      cases found with
      | none =>
          obtain ⟨hnext, hempty, hmore⟩ := hreads.idle hinv hpull
          rw [D.drain_idle hpull]
          refine ⟨hnext, ?_, hmore⟩
          have hself := hmore []
          simp only [List.append_nil] at hself
          exact hself ▸ hempty
      | some item =>
          obtain ⟨hnext, hmore⟩ := hreads.item hinv hpull
          obtain ⟨hlast, hempty, hrest⟩ :=
            ih next.2.length (D.shrinks hpull) next.1 next.2 hnext rfl
          rw [D.drain_item hpull]
          refine ⟨hlast, hempty, fun more => ?_⟩
          rw [hmore more, hrest more, List.cons_append]

/-- Feeding a stream in chunks gives the grammar's items of the whole stream. -/
theorem Decoder.Reads.feed (hreads : D.Reads G Inv) (state : σ)
    (buf : List β) (chunks : List (List β)) (hinv : Inv state buf)
    (hidle : G.parse buf = []) :
    (D.feed state buf chunks).1 = G.parse (buf ++ chunks.flatten) := by
  induction chunks generalizing state buf with
  | nil => simp [Decoder.feed, hidle]
  | cons chunk rest ih =>
      obtain ⟨hnext, hempty, hmore⟩ :=
        hreads.drain state (buf ++ chunk) (hreads.grow chunk hinv)
      simp only [Decoder.feed, List.flatten_cons]
      rw [ih _ _ hnext hempty, ← hmore rest.flatten, List.append_assoc]

end Reads

end Framing
