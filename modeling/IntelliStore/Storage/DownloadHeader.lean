import IntelliStore.Library.FieldValue
import IntelliStore.Metadata.FileService
import IntelliStore.Migrations

/-! The `Content-Disposition` header of the download routes. A file name is the list of its UTF-16
code units, as JavaScript holds it. -/

namespace IntelliStore.Storage
open Library.FieldValue Metadata
open Migrations (utf16Units)

abbrev FileName := List Nat

/-- `fileName` in `createFileSchema`. -/
def fileNameSchema (fileName : FileName) : Bool := 1 ≤ fileName.length && fileName.length ≤ 255

/-- `attachment; filename="${fileName}"` -/
def contentDisposition (fileName : FileName) : List Nat :=
  units "attachment; filename=" ++ quote :: (fileName ++ [quote])

/-- What `res.set` accepts; it throws for any other value. -/
def isHeaderValue (value : List Nat) : Bool := value.all isFieldUnit

/-- A client reads the name back from the header. -/
def Survives (fileName : FileName) : Prop :=
  isHeaderValue (contentDisposition fileName) = true ∧
    parameter (units "filename") (contentDisposition fileName) = some fileName

variable {fileName : FileName}

theorem length_utf16Units (s : String) : (utf16Units s).length = utf16Length s := by
  rw [utf16Units, List.length_flatMap, utf16Length]
  congr 1
  apply List.map_congr_left
  intro c _
  split_ifs <;> rfl

theorem createFileSchema_eq (input : CreateFileInput) : createFileSchema input =
    (fileNameSchema (utf16Units input.fileName) &&
      createVersionSchema input.toCreateVersionInput) := by
  rw [createFileSchema, fileNameSchema, length_utf16Units]

theorem parameter_contentDisposition :
    parameter (units "filename") (contentDisposition fileName) =
      (quotedString (fileName ++ [quote])).bind fun q =>
        (parameters (contentDisposition fileName).length q.2).map fun _ => q.1 := by
  have htype : (contentDisposition fileName).takeWhile isTokenUnit = units "attachment" := rfl
  have hrest : (contentDisposition fileName).dropWhile isTokenUnit =
      semicolon :: 0x20 :: (units "filename" ++ equals :: quote :: (fileName ++ [quote])) := rfl
  have hname : ((0x20 :: (units "filename" ++ equals :: quote :: (fileName ++ [quote]))).dropWhile
      isBlank).takeWhile isTokenUnit = units "filename" := rfl
  have hvalue : ((0x20 :: (units "filename" ++ equals :: quote :: (fileName ++ [quote]))).dropWhile
      isBlank).dropWhile isTokenUnit = equals :: quote :: (fileName ++ [quote]) := rfl
  have hquoted : parameterValue (quote :: (fileName ++ [quote])) =
      quotedString (fileName ++ [quote]) := rfl
  have hblank : ∀ text, (semicolon :: text).dropWhile isBlank = semicolon :: text := fun _ => rfl
  rw [parameter, htype, if_neg (by decide), hrest, parameters, hblank]
  simp only [if_true, hname, hvalue, hquoted]
  rw [if_pos ⟨by decide, trivial⟩]
  cases quotedString (fileName ++ [quote]) with
  | none => rfl
  | some q =>
    simp only [Option.bind_some]
    cases parameters (contentDisposition fileName).length q.2 with
    | none => rfl
    | some params => rfl

theorem survives_iff (fileName : FileName) : Survives fileName ↔ ∀ u ∈ fileName, Plain u := by
  unfold Survives
  rw [parameter_contentDisposition]
  constructor
  · intro h
    obtain ⟨q, hq, hparameters⟩ := Option.bind_eq_some_iff.mp h.2
    obtain ⟨_, _, rfl⟩ := Option.map_eq_some_iff.mp hparameters
    exact plain_of_quotedString hq
  · intro hplain
    have hfield : ∀ u ∈ fileName, isFieldUnit u = true := fun u hu => (hplain u hu).1
    refine ⟨?_, ?_⟩
    · unfold isHeaderValue contentDisposition
      rw [List.all_append, List.all_cons, List.all_append, List.all_eq_true.mpr hfield]
      decide
    · rw [quotedString_of_plain hplain]
      rfl

/-- The quote in `a"b` ends the parameter, and what follows it is no parameter. -/
theorem quote_in_fileName : ¬∀ fileName : FileName, fileNameSchema fileName = true →
    Survives fileName := by
  intro h
  have hname := h [0x61, quote, 0x62] (by decide)
  exact absurd hname.2 (by decide)

end IntelliStore.Storage
