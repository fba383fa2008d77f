import InputDetail.Text.Words

/-!
# Lowercase forms

Lowercasing is done with what it has made: lowercase forms have no others, are no separators, and are
no capitals, except that a capital without a small form is left as it is. To see this, the tables are
compared as numbers that have a bit for every code point.
-/
namespace InputDetail.Text

variable {runs others : List CodeRun} {run : CodeRun} {shift : CaseShift} {code : Nat} {c d : Char}

/-- The number that has these bits. -/
def bits (codes : List Nat) : Nat := codes.foldr (fun code n => 1 <<< code ||| n) 0

theorem testBit_bits {codes : List Nat} (h : code ∈ codes) : (bits codes).testBit code = true := by
  induction codes with
  | nil => cases h
  | cons first codes ih =>
    rw [bits, List.foldr_cons, Nat.testBit_or, Bool.or_eq_true]
    obtain rfl | h := List.mem_cons.1 h
    · left
      simp
    · exact Or.inr (ih h)

/-- The code points of a run. -/
def CodeRun.codes (run : CodeRun) : List Nat :=
  (List.range ((run.last - run.first) / run.step + 1)).map (run.first + run.step * ·)

theorem CodeRun.mem_codes (h : run.contains code = true) : code ∈ run.codes := by
  obtain ⟨hfirst, hlast, hstep⟩ := contains_iff.1 h
  refine List.mem_map.2 ⟨(code - run.first) / run.step, ?_, ?_⟩
  · rw [List.mem_range, Nat.lt_succ_iff]
    exact Nat.div_le_div_right (Nat.sub_le_sub_right hlast _)
  · rw [Nat.mul_div_cancel' (Nat.dvd_of_mod_eq_zero hstep), Nat.add_sub_cancel' hfirst]

/-- The number that has the bits of all code points in the runs. -/
def bitsAll (runs : List CodeRun) : Nat := runs.foldr (fun run n => bits run.codes ||| n) 0

theorem testBit_bitsAll (h : inRuns runs c = true) : (bitsAll runs).testBit c.toNat = true := by
  obtain ⟨run, hrun, hc⟩ := inRuns_iff.1 h
  induction runs with
  | nil => cases hrun
  | cons first runs ih =>
    rw [bitsAll, List.foldr_cons, Nat.testBit_or, Bool.or_eq_true]
    obtain rfl | hrun := List.mem_cons.1 hrun
    · exact Or.inl (testBit_bits (CodeRun.mem_codes hc))
    · exact Or.inr (ih (inRuns_iff.2 ⟨run, hrun, hc⟩) hrun)

/-- Runs without a common bit have no common code point. -/
theorem inRuns_eq_false_of_bitsAll (h : bitsAll runs &&& bitsAll others = 0)
    (hc : inRuns runs c = true) : inRuns others c = false := by
  refine Bool.eq_false_iff.2 fun hother => ?_
  have hbit : (bitsAll runs &&& bitsAll others).testBit c.toNat = true := by
    rw [Nat.testBit_and, testBit_bitsAll hc, testBit_bitsAll hother]
    rfl
  rw [h, Nat.zero_testBit] at hbit
  cases hbit

namespace CaseShift

/-- The lowercase forms of the capitals. -/
def images (shift : CaseShift) : CodeRun :=
  ⟨shift.target, shift.capitals.last - shift.capitals.first + shift.target, shift.capitals.step⟩

/-- A test that the lowercase forms are characters. -/
def valid (shift : CaseShift) : Bool :=
  shift.images.last < 0xd800 || 0xdfff < shift.images.first && shift.images.last < 0x110000

theorem contains_images (hvalid : shift.valid = true)
    (hc : shift.capitals.contains c.toNat = true) :
    shift.images.contains (shift.image c).toNat = true := by
  obtain ⟨hfirst, hlast, hstep⟩ := CodeRun.contains_iff.1 hc
  have hoffset : c.toNat - shift.capitals.first ≤ shift.capitals.last - shift.capitals.first :=
    Nat.sub_le_sub_right hlast _
  have hscalar : (c.toNat - shift.capitals.first + shift.target).isValidChar := by
    unfold Nat.isValidChar
    unfold valid images at hvalid
    simp only [Bool.or_eq_true, Bool.and_eq_true, decide_eq_true_eq] at hvalid
    omega
  have himage : (shift.image c).toNat = c.toNat - shift.capitals.first + shift.target := by
    rw [image, Char.ofNat, dif_pos hscalar]
    rfl
  rw [himage, CodeRun.contains_iff]
  refine ⟨Nat.le_add_left _ _, Nat.add_le_add_right hoffset _, ?_⟩
  rwa [images, Nat.add_sub_cancel]

end CaseShift

/-- The capitals, whether they have small forms or not, and the separators. -/
def foreignRuns : List CodeRun :=
  [⟨0x2d, 0x2d, 1⟩, ⟨0x5f, 0x5f, 1⟩, ⟨0x130, 0x130, 1⟩] ++ blankRuns ++ uppercaseRuns ++
    caseShifts.map (·.capitals)

theorem valid_of_mem : ∀ shift ∈ caseShifts, shift.valid = true := by decide +kernel

theorem bitsAll_images :
    bitsAll (caseShifts.map CaseShift.images) &&& bitsAll foreignRuns = 0 := by decide +kernel

/-- A character inside a word that is no capital, not even one without a small form. -/
structure IsSmall (c : Char) : Prop where
  separator : isSeparator c = false
  uppercase : isUppercase c = false
  lower : lower c = [c]

theorem isSmall_of_inRuns (h : inRuns foreignRuns c = false) : IsSmall c := by
  simp only [foreignRuns, inRuns, List.any_append, Bool.or_eq_false_iff, List.any_map] at h
  obtain ⟨⟨⟨hmarks, hblank⟩, huppercase⟩, hcapitals⟩ := h
  have hyphen : c ≠ '-' := by rintro rfl; revert hmarks; decide
  have hunderscore : c ≠ '_' := by rintro rfl; revert hmarks; decide
  have hdotted : c ≠ dottedCapitalI := by rintro rfl; revert hmarks; decide
  have hfind : caseShifts.find? (·.capitals.contains c.toNat) = none := by
    simpa using hcapitals
  refine ⟨?_, huppercase, by rw [lower, if_neg hdotted, hfind]⟩
  rw [isSeparator, Bool.or_eq_false_iff, Bool.or_eq_false_iff]
  exact ⟨⟨beq_false_of_ne hunderscore, beq_false_of_ne hyphen⟩, hblank⟩

/-- Lowercasing leaves a character as it is, or makes small ones of it. -/
theorem mem_lower (h : d ∈ lower c) : lower c = [c] ∧ d = c ∨ IsSmall d := by
  by_cases hdotted : c = dottedCapitalI
  · right
    obtain rfl | rfl : d = 'i' ∨ d = '\u0307' := by simpa [lower, hdotted] using h
    · exact isSmall_of_inRuns (by decide +kernel)
    · exact isSmall_of_inRuns (by decide +kernel)
  · cases hfind : caseShifts.find? (·.capitals.contains c.toNat) with
    | none =>
      have hlower : lower c = [c] := by rw [lower, if_neg hdotted, hfind]
      exact Or.inl ⟨hlower, by simpa [hlower] using h⟩
    | some shift =>
      obtain rfl : d = shift.image c := by simpa [lower, hdotted, hfind] using h
      have hmem := List.mem_of_find?_eq_some hfind
      have hcapital : shift.capitals.contains c.toNat = true := by simpa using List.find?_some hfind
      have himage := CaseShift.contains_images (valid_of_mem shift hmem) hcapital
      exact Or.inr (isSmall_of_inRuns (inRuns_eq_false_of_bitsAll bitsAll_images
        (inRuns_iff.2 ⟨shift.images, List.mem_map_of_mem hmem, himage⟩)))

/-- Lowercase forms have no other lowercase forms. -/
theorem lower_of_mem_lower (h : d ∈ lower c) : lower d = [d] := by
  obtain ⟨hc, rfl⟩ | hd := mem_lower h
  · exact hc
  · exact hd.lower

theorem isSeparator_of_mem_lower (hc : isSeparator c = false) (h : d ∈ lower c) :
    isSeparator d = false := by
  obtain ⟨-, rfl⟩ | hd := mem_lower h
  · exact hc
  · exact hd.separator

/-- A capital among lowercase forms has been left as it is. -/
theorem lower_of_isUppercase (h : d ∈ lower c) (hd : isUppercase d = true) : d = c ∧ lower c = [c] := by
  obtain ⟨hc, heq⟩ | hsmall := mem_lower h
  · exact ⟨heq, hc⟩
  · rw [hsmall.uppercase] at hd
    cases hd

theorem isLowercase_of_isSeparator (h : isSeparator c = true) : isLowercase c = false := by
  have hblank : bitsAll blankRuns &&& bitsAll lowercaseRuns = 0 := by decide +kernel
  simp only [isSeparator, Bool.or_eq_true, beq_iff_eq] at h
  obtain (rfl | rfl) | h := h
  · decide +kernel
  · decide +kernel
  · exact inRuns_eq_false_of_bitsAll hblank h

end InputDetail.Text
