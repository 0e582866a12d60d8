import Mathlib
import PulseSequencer.Program.Listing

/-!
# Listings can be read back

A listing tells everything of its program: no other program has the same one. Lines are set apart by
line feeds, which no line has, and the fields of a line by commas, which no field has; a word of
flags that does not fit its column is written in full, and zeros before it do not count.

* `Instruction.fields`: the fields of the line of an instruction.

Results:
* `Text.binary_injective`, `Opcode.text_injective`: one field tells its value.
* `Text.eq_of_intercalate_eq`: texts come back from behind a separator that they do not have.
* `Instruction.text_injective`: one line tells its instruction.
* `lines_listing`, `getElem?_listingLines`: the lines, and where each of them stands.
* **`listing_tells_program`**: all of it.
-/

namespace PulseSequencer

/-! ## Numbers and separators -/

namespace Text

variable {c : Char} {width n : Nat}

theorem toList_binary (width n : Nat) :
    (binary width n).toList =
      List.replicate (width - (Nat.toDigits 2 n).length) '0' ++ Nat.toDigits 2 n := by
  rw [binary, toList_padLeft, String.length_ofList, String.toList_ofList]

theorem toList_aligned (width n : Nat) :
    (aligned width n).toList =
      List.replicate (width - (Nat.toDigits 10 n).length) ' ' ++ Nat.toDigits 10 n := by
  rw [aligned, toList_padLeft, Nat.toString_eq_ofList_toDigits, String.length_ofList,
    String.toList_ofList]

/-- Binary digits with zeros before them read back as the number. -/
theorem ofDigitChars_binary (width n : Nat) : Nat.ofDigitChars 2 (binary width n).toList 0 = n := by
  rw [toList_binary, Nat.ofDigitChars_append, Nat.ofDigitChars_replicate_zero, Nat.mul_zero,
    Nat.ofDigitChars_toDigits (by decide) (by decide)]

theorem binary_injective (width : Nat) : Function.Injective (binary width) := by
  intro m n h
  rw [← ofDigitChars_binary width m, h, ofDigitChars_binary]

theorem isDigit_of_mem_binary (h : c ∈ (binary width n).toList) : c.isDigit = true := by
  rw [toList_binary] at h
  rcases List.mem_append.mp h with hfill | hdigits
  · rw [List.eq_of_mem_replicate hfill]
    rfl
  · exact Nat.isDigit_of_mem_toDigits (by decide) (by decide) hdigits

theorem newline_not_mem_aligned (width n : Nat) : '\n' ∉ (aligned width n).toList := by
  rw [toList_aligned, List.mem_append, not_or]
  refine ⟨fun h => absurd (List.eq_of_mem_replicate h) (by decide), fun h => ?_⟩
  exact absurd (Nat.isDigit_of_mem_toDigits (by decide) (by decide) h) (by decide)

/-- **Texts come back from behind a separator** that none of them has. -/
theorem eq_of_intercalate_eq {xs ys : List String} (hxs : ∀ s ∈ xs, c ∉ s.toList)
    (hys : ∀ s ∈ ys, c ∉ s.toList) (hx : xs ≠ []) (hy : ys ≠ [])
    (h : (String.singleton c).intercalate xs = (String.singleton c).intercalate ys) : xs = ys := by
  have hsplit := String.toList_split_intercalate hxs
  rwa [h, String.toList_split_intercalate hys, if_neg hx, if_neg hy, eq_comm] at hsplit

theorem not_mem_intercalate {d : Char} (hcd : c ≠ d) {xs : List String}
    (hxs : ∀ s ∈ xs, c ∉ s.toList) : c ∉ ((String.singleton d).intercalate xs).toList := by
  induction xs with
  | nil => exact List.not_mem_nil
  | cons x xs ih =>
    obtain ⟨hx, hrest⟩ := List.forall_mem_cons.mp hxs
    cases xs with
    | nil => rwa [String.intercalate_singleton]
    | cons y ys =>
      rw [String.intercalate_cons_cons, String.toList_append, String.toList_append,
        String.toList_singleton]
      simp only [List.mem_append, List.mem_singleton, not_or]
      exact ⟨⟨hx, hcd⟩, ih hrest⟩

end Text

/-! ## The line of an instruction -/

theorem Opcode.text_injective : Function.Injective Opcode.text := by
  intro a b
  cases a <;> cases b <;> decide

namespace Instruction

variable {i : Instruction} {c : Char}

/-- The fields of the line of an instruction, which commas set apart. -/
def fields (i : Instruction) : List String :=
  ["[" ++ i.flags.text Flags.maxOutputs, " " ++ i.opcode.text, " " ++ toString i.data,
    " " ++ toString i.length ++ " ns]"]

theorem text_eq_intercalate (i : Instruction) : i.text = ",".intercalate i.fields := by
  apply String.toList_inj.mp
  simp [text, fields, toString]

/-- Besides digits and the names of opcodes there is nothing in the fields but their frame. -/
theorem not_mem_fields (hdigit : c.isDigit = false) (hopcode : ∀ o : Opcode, c ∉ o.text.toList)
    (hframe : c ∉ "[ ns]".toList) : ∀ s ∈ i.fields, c ∉ s.toList := by
  have hflags : c ∉ (i.flags.text Flags.maxOutputs).toList := fun h =>
    Bool.false_ne_true (hdigit.symm.trans (Text.isDigit_of_mem_binary h))
  have hnumber : ∀ n : Nat, c ∉ Nat.toDigits 10 n := fun n h =>
    Bool.false_ne_true
      (hdigit.symm.trans (Nat.isDigit_of_mem_toDigits (by decide) (by decide) h))
  simp only [fields, List.forall_mem_cons, String.toList_append, List.mem_append, not_or]
  simp at hframe
  simp [hframe, hflags, hopcode, hnumber]

theorem fields_injective : Function.Injective fields := by
  rintro ⟨flags, opcode, data, length⟩ ⟨flags', opcode', data', length'⟩ h
  simp only [fields, List.cons.injEq, and_true, String.append_right_inj,
    String.append_left_inj] at h
  obtain ⟨hflags, hopcode, hdata, hlength⟩ := h
  obtain rfl := BitVec.eq_of_toNat_eq (Text.binary_injective _ hflags)
  obtain rfl := Opcode.text_injective hopcode
  obtain rfl := Nat.repr_injective hdata
  obtain rfl := Nat.repr_injective hlength
  rfl

/-- **The line of an instruction tells the instruction.** -/
theorem text_injective : Function.Injective Instruction.text := by
  intro i j h
  have hcomma : ∀ i : Instruction, ∀ s ∈ i.fields, ',' ∉ s.toList := fun i =>
    not_mem_fields (by decide) (fun o => by cases o <;> decide) (by decide)
  rw [text_eq_intercalate, text_eq_intercalate] at h
  exact fields_injective (Text.eq_of_intercalate_eq (hcomma i) (hcomma j) (List.cons_ne_nil _ _)
    (List.cons_ne_nil _ _) h)

theorem newline_not_mem_text (i : Instruction) : '\n' ∉ i.text.toList := by
  have hfields : ∀ s ∈ i.fields, '\n' ∉ s.toList :=
    not_mem_fields (by decide) (fun o => by cases o <;> decide) (by decide)
  have hcomma : "," = String.singleton ',' := rfl
  rw [text_eq_intercalate, hcomma]
  exact Text.not_mem_intercalate (by decide) hfields

end Instruction

/-! ## The lines of a listing -/

namespace Program

variable {p q : Program} {k : Nat} {i : Instruction}

theorem lineText_injective (k : Nat) : Function.Injective (lineText k) := by
  intro i j h
  exact Instruction.text_injective ((String.append_right_inj _).mp h)

theorem newline_not_mem_lineText (k : Nat) (i : Instruction) : '\n' ∉ (lineText k i).toList := by
  have haligned := Text.newline_not_mem_aligned 4 k
  have htext := i.newline_not_mem_text
  simp [lineText, haligned, htext]

theorem getElem?_listingLines (p : Program) (k : Nat) :
    p.listingLines[k]? = p[k]?.map (lineText k) := by
  simp [listingLines, List.getElem?_zipIdx, Function.comp_def]

theorem newline_not_mem_listingLines (p : Program) : ∀ s ∈ p.listingLines, '\n' ∉ s.toList := by
  intro s hs
  obtain ⟨⟨i, k⟩, -, rfl⟩ := List.mem_map.mp hs
  exact newline_not_mem_lineText k i

theorem listingLines_ne_nil (h : p ≠ []) : p.listingLines ≠ [] := by
  rw [← List.length_pos_iff, length_listingLines]
  exact List.length_pos_iff.mpr h

/-- **A listing splits into its lines.** -/
theorem lines_listing (h : p ≠ []) :
    (p.listing.split '\n').toList.map (·.copy) = p.listingLines := by
  have hsplit := String.toList_split_intercalate p.newline_not_mem_listingLines
  rwa [if_neg (listingLines_ne_nil h)] at hsplit

/-- Only the empty program has an empty listing. -/
theorem listing_ne_empty (h : p ≠ []) : p.listing ≠ "" := by
  obtain ⟨line, lines, hlines⟩ := List.exists_cons_of_ne_nil (listingLines_ne_nil h)
  have hfirst := getElem?_listingLines p 0
  rw [hlines, List.getElem?_cons_zero] at hfirst
  obtain ⟨i, -, rfl⟩ := Option.map_eq_some_iff.mp hfirst.symm
  rw [listing, hlines, lineText, String.intercalate_cons_append]
  simp [String.append_eq_empty_iff]

/-- **A listing tells its program.** -/
theorem listing_injective : Function.Injective listing := by
  intro p q h
  by_cases hp : p = []
  · subst hp
    by_contra hq
    exact listing_ne_empty (Ne.symm hq) h.symm
  · have hq : q ≠ [] := by
      rintro rfl
      exact listing_ne_empty hp h
    have hlines : p.listingLines = q.listingLines := by
      rw [← lines_listing hp, ← lines_listing hq, h]
    refine List.ext_getElem? fun k => Option.map_injective (lineText_injective k) ?_
    rw [← getElem?_listingLines, ← getElem?_listingLines, hlines]

/-- **A listing loses nothing.** Two programs with the same listing are the same, whatever their
flags, opcodes, arguments and lengths are. The listing of a program that is not empty splits at line
feeds into a line for each instruction, and the line of number `k` begins with `k`, to the right of
a column of four characters or in full where it is longer. -/
theorem listing_tells_program :
    (∀ p q : Program, p.listing = q.listing → p = q) ∧
      ∀ p : Program, p ≠ [] →
        let lines := (p.listing.split '\n').toList.map (·.copy)
        lines.length = p.length ∧
          ∀ k i, p[k]? = some i → ∃ line, lines[k]? = some line ∧ line.toList =
            List.replicate (4 - (Nat.toDigits 10 k).length) ' ' ++ Nat.toDigits 10 k ++
              ": ".toList ++ i.text.toList := by
  refine ⟨fun p q h => listing_injective h, fun p hp => ?_⟩
  rw [lines_listing hp]
  refine ⟨p.length_listingLines, fun k i hk => ⟨lineText k i, ?_, ?_⟩⟩
  · rw [getElem?_listingLines, hk, Option.map_some]
  · rw [lineText, String.toList_append, String.toList_append, Text.toList_aligned]

/-- A word of 25 bits does not fit its column and is written in full. -/
example : listing [.proceed 1 10, ⟨0x1000001, .branch, 0, 22⟩] =
    "   0: [000000000000000000000001, CONTINUE, 0, 10 ns]\n" ++
      "   1: [1000000000000000000000001, BRANCH, 0, 22 ns]" := by
  decide

end Program

end PulseSequencer
