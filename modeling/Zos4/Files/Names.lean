import Zos4.Files.Path

/-!
# Names of files

A name is a string of bytes and need not be a string of characters: `isStr` says which
ones are. `hasSuffix`, `trimSuffix` and `rfind` look for a pattern at the end of a name
and at the last place in it. What stands before a character in a valid name is valid
itself (`isStr_of_append`).
-/

namespace Zos4.Files

/-! ## Suffixes -/

def hasSuffix (name suffix : Bytes) : Bool := suffix.isSuffixOf name

def trimSuffix (name suffix : Bytes) : Bytes :=
  if hasSuffix name suffix then name.take (name.length - suffix.length) else name

variable {name suffix pat stem : Bytes}

theorem hasSuffix_iff : hasSuffix name suffix = true ↔ ∃ stem, name = stem ++ suffix := by
  rw [hasSuffix, List.isSuffixOf_iff_suffix]
  constructor
  · intro h
    obtain ⟨stem, h⟩ := h
    exact ⟨stem, h.symm⟩
  · intro h
    obtain ⟨stem, h⟩ := h
    exact ⟨stem, h.symm⟩

@[simp] theorem hasSuffix_append : hasSuffix (stem ++ suffix) suffix = true :=
  hasSuffix_iff.mpr ⟨stem, rfl⟩

@[simp] theorem trimSuffix_append : trimSuffix (stem ++ suffix) suffix = stem := by
  rw [trimSuffix, if_pos hasSuffix_append]
  simp

/-! ## The last place -/

/-- The last place where the pattern stands. -/
def rfind (name pat : Bytes) : Option Nat :=
  (List.range (name.length + 1)).reverse.find? fun i => pat.isPrefixOf (name.drop i)

theorem rfind_some {i : Nat} (h : rfind name pat = some i) :
    ∃ rest, name = name.take i ++ pat ++ rest := by
  have hpat := List.find?_some h
  obtain ⟨rest, hrest⟩ := List.isPrefixOf_iff_prefix.mp hpat
  refine ⟨rest, ?_⟩
  rw [List.append_assoc, hrest, List.take_append_drop]

/-- A pattern at the end stands nowhere after that. -/
theorem rfind_append (h : pat ≠ []) : rfind (stem ++ pat) pat = some stem.length := by
  have hpat : 0 < pat.length := List.length_pos_of_ne_nil h
  have hrange : (List.range ((stem ++ pat).length + 1)).reverse =
      ((List.range pat.length).map (stem.length + 1 + ·)).reverse ++
        stem.length :: (List.range stem.length).reverse := by
    have hlength : (stem ++ pat).length + 1 = (stem.length + 1) + pat.length := by
      rw [List.length_append]
      omega
    rw [hlength, List.range_add, List.reverse_append, List.range_succ, List.reverse_append]
    rfl
  rw [rfind, hrange, List.find?_append]
  have hlater : ((List.range pat.length).map (stem.length + 1 + ·)).reverse.find?
      (fun i => pat.isPrefixOf ((stem ++ pat).drop i)) = none := by
    rw [List.find?_eq_none]
    intro i hi hprefix
    obtain ⟨j, hj, rfl⟩ := List.mem_map.mp (List.mem_reverse.mp hi)
    have hlength := (List.isPrefixOf_iff_prefix.mp hprefix).length_le
    rw [List.length_drop, List.length_append] at hlength
    omega
  have hstands : pat.isPrefixOf ((stem ++ pat).drop stem.length) = true := by
    rw [List.drop_left]
    exact List.isPrefixOf_iff_prefix.mpr (List.prefix_refl pat)
  rw [hlater, Option.none_or, List.find?_cons, hstands]

/-! ## Characters -/

/-- The name is one of characters. -/
def isStr (name : Bytes) : Bool := name.toByteArray.validateUTF8

theorem isStr_append (hstem : isStr stem = true) (hpat : isStr pat = true) :
    isStr (stem ++ pat) = true := by
  rw [isStr, ByteArray.validateUTF8_eq_true_iff] at *
  rw [List.toByteArray_append]
  exact hstem.append hpat

/-- What stands before the beginning of a character is one of characters. -/
theorem isStr_of_append {rest : Bytes} {c : UInt8} (hc : c.IsUTF8FirstByte)
    (h : isStr (stem ++ c :: rest) = true) : isStr stem = true := by
  have hvalid := ByteArray.validateUTF8_eq_true_iff.mp h
  have hlt : stem.length < (stem ++ c :: rest).toByteArray.size := by simp
  have hbyte : (stem ++ c :: rest).toByteArray[stem.length] = c := by
    rw [List.getElem_toByteArray]
    simp
  have hpos : (String.Pos.Raw.mk stem.length).IsValid (String.ofByteArray _ hvalid) := by
    rw [String.Pos.Raw.isValid_iff_isUTF8FirstByte]
    refine .inr ⟨hlt, ?_⟩
    show (stem ++ c :: rest).toByteArray[stem.length].IsUTF8FirstByte
    rw [hbyte]
    exact hc
  have hextract : (stem ++ c :: rest).toByteArray.extract 0 stem.length =
      stem.toByteArray := by
    ext1
    simp
  rw [isStr, ByteArray.validateUTF8_eq_true_iff]
  exact hextract ▸ hpos.isValidUTF8_extract_zero

end Zos4.Files
