/-
Two versions that compare differently, and the updates that differ for them.
-/
import Bridgething.Store.Twins

namespace Bridgething

namespace Store

def maxId : Uuid :=
  ⟨List.replicate 32 (Fin.last 15), List.length_replicate⟩

def release (version minimum : String) : AppVersion :=
  ⟨version, "2024-01-01T00:00:00Z", ⟨"", 0, ""⟩, none, minimum⟩

def entry (version minimum : String) : AppEntry :=
  ⟨maxId.toString, "app", [release version minimum]⟩

/-- One source with one webapp, which has one release. -/
def offered (version minimum : String) : Table String Catalog :=
  [("c", ⟨[entry version minimum]⟩)]

def held (version : String) : WebappInfo :=
  ⟨maxId, .installed, version, some "c", none⟩

variable {crates : Crates} {engine : Resolve.Engine}

/-- The id that is written with hyphens, in small letters. -/
def readUuid (text : List Char) : Option Uuid :=
  if h : (text.filterMap readDigit).length = 32 then
    if Uuid.text ⟨text.filterMap readDigit, h⟩ = text then
      some ⟨text.filterMap readDigit, h⟩
    else none
  else none

def reading : Crates where
  parseStr raw := readUuid (Text.toAsciiLowercase raw.toList)
  parseFromRfc3339 raw :=
    (Rfc3339.parse raw.toList).map Rfc3339.Stamp.instant

end Store

end Bridgething
