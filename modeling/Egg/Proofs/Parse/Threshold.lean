-- SUMMARY: The nesting limit only cuts readings off: from a threshold on, the result is the same.
import Mathlib.Data.Nat.Find
import Egg.Proofs.Parse.Acceptance
import Egg.Proofs.Parse.Outcome

/-!
# The threshold of the nesting limit

A reader moves alike under every limit that it does not reach. Where it reaches one,
exactly as many lists are open as the limit has levels, and under a larger limit the
reading goes on from there. So a source has a threshold: below it each limit cuts the
reading off, a larger one later than a smaller one, and from it on the limit does not
matter.
-/

namespace Egg.Parse

open Text Grammar

variable {limit limit' n : Nat} {frames frames' : List Frame} {focus focus' : Focus}
  {read read' rest rest' : List Char} {what what' : Except Fault Expr}

/-! ## Larger limits -/

theorem Moves.mono (h : Moves limit frames focus read frames' focus' rest)
    (hle : limit ≤ limit') : Moves limit' frames focus read frames' focus' rest := by
  cases h with
  | atom hlt hb hs hend => exact .atom (Nat.lt_of_lt_of_le hlt hle) hb hs hend
  | callNone hb hb' => exact .callNone hb hb'
  | openCall hb hb' hblank hparen => exact .openCall hb hb' hblank hparen
  | comma hb => exact .comma hb
  | close hb => exact .close hb

theorem Halts.mono (h : Halts limit frames focus read what rest) (hle : limit ≤ limit')
    (hwhat : ∀ n, what ≠ .error (.tooDeep n)) : Halts limit' frames focus read what rest := by
  cases h with
  | finished hb hblank hparen => exact .finished hb hblank hparen
  | noSeparator hb hblank hmark => exact .noSeparator hb hblank hmark
  | noExpression hlt hb hblank hatom =>
    exact .noExpression (Nat.lt_of_lt_of_le hlt hle) hb hblank hatom
  | tooDeep => exact absurd rfl (hwhat limit)

/-- A reading that is not cut off is the same under every larger limit. -/
theorem Reads.mono (h : Reads limit frames focus read what rest) (hle : limit ≤ limit')
    (hwhat : ∀ n, what ≠ .error (.tooDeep n)) : Reads limit' frames focus read what rest := by
  induction h with
  | halt h => exact .halt (h.mono hle hwhat)
  | move h _ ih => exact .move (h.mono hle) (ih hwhat)

/-! ## Where a reading is cut off -/

/-- As many lists are open as a reader under the limit can have opened. -/
def Fits (limit : Nat) (frames : List Frame) : Focus → Prop
  | .missing => frames.length ≤ limit
  | .complete _ => frames.length < limit

theorem Moves.fits (h : Moves limit frames focus read frames' focus' rest)
    (hfits : Fits limit frames focus) : Fits limit frames' focus' := by
  cases h with
  | atom hlt => exact hlt
  | callNone => exact hfits
  | openCall => exact hfits
  | comma => exact Nat.le_of_lt hfits
  | close => exact Nat.lt_of_succ_lt hfits

/-- Where a reading is cut off, as many lists are open as the limit has levels. Under a
    larger limit it goes on from there. -/
theorem Reads.exists_cut (h : Reads limit frames focus read (.error (.tooDeep n)) rest)
    (hfits : Fits limit frames focus) :
    n = limit ∧ ∃ frames', frames'.length = limit ∧
      ∀ limit' read' what' rest', limit ≤ limit' → rest = read' ++ rest' →
        Reads limit' frames' .missing read' what' rest' →
        Reads limit' frames focus (read ++ read') what' rest' := by
  generalize hwhat : Except.error (Fault.tooDeep n) = what at h
  induction h with
  | @halt frames _ _ _ _ h =>
    cases h with
    | finished | noSeparator | noExpression => cases hwhat
    | tooDeep hle =>
      cases hwhat
      exact ⟨rfl, frames, Nat.le_antisymm hfits hle, fun _ _ _ _ _ _ h' => h'⟩
  | move h _ ih =>
    obtain ⟨hn, frames', hlength, hgoes⟩ := ih (h.fits hfits) hwhat
    refine ⟨hn, frames', hlength, ?_⟩
    intro limit' read' what' rest' hle hrest h'
    have hreads := hgoes limit' read' what' rest' hle hrest h'
    rw [List.append_assoc]
    refine .move ?_ hreads
    rw [List.append_assoc, ← hrest]
    exact h.mono hle

theorem Moves.length_le (h : Moves limit frames focus read frames' focus' rest) :
    frames'.length ≤ frames.length + read.count '(' := by
  cases h with
  | atom | callNone | comma => exact Nat.le_add_right ..
  | openCall =>
    rw [List.count_append, List.count_cons_self, List.length_cons]
    omega
  | close =>
    rw [List.length_cons]
    omega

/-- A reading that is cut off has seen an opening bracket for each level. -/
theorem Reads.le_count (h : Reads limit frames focus read (.error (.tooDeep n)) rest) :
    limit ≤ frames.length + read.count '(' := by
  generalize hwhat : Except.error (Fault.tooDeep n) = what at h
  induction h with
  | halt h =>
    cases h with
    | finished | noSeparator | noExpression => cases hwhat
    | tooDeep hle => exact hle
  | move h _ ih =>
    have hlength := h.length_le
    have hle := ih hwhat
    rw [List.count_append]
    omega

theorem outcome_inj (h : outcome what rest = outcome what' rest') :
    what = what' ∧ rest = rest' := by
  cases what <;> cases what' <;> simp_all [outcome]

/-- A source has one reading. -/
theorem Reads.unique (h : Reads limit frames focus read what rest)
    (h' : Reads limit frames focus read' what' rest') (happ : read ++ rest = read' ++ rest') :
    read = read' ∧ what = what' ∧ rest = rest' := by
  have hrun := run_eq_of_reads h
  rw [happ, run_eq_of_reads h'] at hrun
  obtain ⟨rfl, rfl⟩ := outcome_inj hrun
  exact ⟨List.append_cancel_right happ, rfl, rfl⟩

/-- A larger limit cuts a reading off later. -/
theorem Reads.exists_more (h : Reads limit [] .missing read (.error (.tooDeep limit)) rest)
    (h' : Reads limit' [] .missing read' (.error (.tooDeep limit')) rest')
    (happ : read ++ rest = read' ++ rest') (hlt : limit < limit') :
    ∃ more, more ≠ [] ∧ read' = read ++ more := by
  obtain ⟨-, frames, hlength, hgoes⟩ := h.exists_cut (Nat.zero_le _)
  obtain ⟨more, what, rest'', rfl, hmore⟩ := exists_reads limit' frames .missing rest
  have hreads := hgoes limit' more what rest'' (Nat.le_of_lt hlt) rfl hmore
  rw [← List.append_assoc] at happ
  obtain ⟨rfl, rfl, rfl⟩ := hreads.unique h' happ
  refine ⟨more, ?_, rfl⟩
  rintro rfl
  generalize hnil : [] = nothing at hmore
  cases hmore with
  | halt hhalts =>
    cases hhalts with
    | tooDeep hle => omega
  | move hmoves => exact absurd (List.append_eq_nil_iff.mp hnil.symm).1 hmoves.ne_nil

/-! ## Limits that a source passes -/

/-- The limit does not cut the reading of the source off. -/
def Passes (limit : Nat) (source : List Char) : Prop :=
  ∃ read what rest, source = read ++ rest ∧ Reads limit [] .missing read what rest ∧
    ∀ n, what ≠ .error (.tooDeep n)

theorem exists_reads_of_not_passes {source : List Char} (h : ¬ Passes limit source) :
    ∃ read rest, source = read ++ rest ∧
      Reads limit [] .missing read (.error (.tooDeep limit)) rest := by
  obtain ⟨read, what, rest, hsource, hreads⟩ := exists_reads limit [] .missing source
  by_cases hwhat : ∃ n, what = .error (.tooDeep n)
  · obtain ⟨n, rfl⟩ := hwhat
    obtain ⟨rfl, -⟩ := hreads.exists_cut (Nat.zero_le _)
    exact ⟨read, rest, hsource, hreads⟩
  · exact absurd ⟨read, what, rest, hsource, hreads, fun n hn => hwhat ⟨n, hn⟩⟩ h

theorem not_passes_zero (source : List Char) : ¬ Passes 0 source := by
  rintro ⟨read, what, rest, rfl, hreads, hwhat⟩
  have hcut : Reads 0 [] .missing [] (.error (.tooDeep 0)) (read ++ rest) :=
    .halt (.tooDeep (Nat.zero_le _))
  exact hwhat 0 (hreads.unique hcut rfl).2.1

theorem passes_of_count_lt {source : List Char} (h : source.count '(' < limit) :
    Passes limit source := by
  refine Classical.byContradiction ?_
  intro hnot
  obtain ⟨read, rest, rfl, hreads⟩ := exists_reads_of_not_passes hnot
  have hle := hreads.le_count
  rw [List.count_append] at h
  rw [List.length_nil] at hle
  omega

end Egg.Parse

namespace Egg.Expr

open Parse Text Grammar

variable {limit limit' : Nat} {source : String}

theorem parseWithin_of_not_passes (h : ¬ Passes limit source.toList) :
    ∃ offset, parseWithin limit source = .error ⟨.nestingTooDeep limit, .point offset⟩ := by
  obtain ⟨read, rest, hsource, hreads⟩ := exists_reads_of_not_passes h
  refine ⟨Span.clamp (byteSize read), ?_⟩
  rw [parseWithin_eq_of_reads hsource hreads]
  exact congrArg Except.error (report_tooDeep limit read rest)

theorem parseWithin_ne_of_passes (h : Passes limit source.toList) {n : Nat} {span : Span} :
    parseWithin limit source ≠ .error ⟨.nestingTooDeep n, span⟩ := by
  intro herr
  obtain ⟨read, what, rest, hsource, hreads, hreport⟩ := exists_reads_of_parseWithin_eq_error herr
  obtain ⟨read', what', rest', hsource', hreads', hwhat⟩ := h
  obtain ⟨rfl, rfl, rfl⟩ := hreads.unique hreads' (hsource.symm.trans hsource')
  have hkind := congrArg ParseError.kind hreport
  exact hwhat n (faultOf_eq_tooDeep_iff.mp (kind_report_eq_nestingTooDeep_iff.mp hkind.symm))

theorem parseWithin_eq_of_passes (h : Passes limit source.toList) (hle : limit ≤ limit') :
    parseWithin limit' source = parseWithin limit source := by
  obtain ⟨read, what, rest, hsource, hreads, hwhat⟩ := h
  rw [parseWithin_eq_of_reads hsource hreads,
    parseWithin_eq_of_reads hsource (hreads.mono hle hwhat)]

/-- Of two limits that cut the reading off, the larger one does so at a larger offset. -/
theorem start_lt_start {err err' : ParseError} (hsize : source.utf8ByteSize ≤ Span.maxOffset)
    (hlt : limit < limit') (hcut : ¬ Passes limit source.toList)
    (hcut' : ¬ Passes limit' source.toList) (herr : parseWithin limit source = .error err)
    (herr' : parseWithin limit' source = .error err') : err.span.start < err'.span.start := by
  obtain ⟨read, rest, hsource, hreads⟩ := exists_reads_of_not_passes hcut
  obtain ⟨read', rest', hsource', hreads'⟩ := exists_reads_of_not_passes hcut'
  rw [parseWithin_eq_of_reads hsource hreads] at herr
  rw [parseWithin_eq_of_reads hsource' hreads'] at herr'
  obtain rfl := Except.error.inj herr
  obtain rfl := Except.error.inj herr'
  obtain ⟨more, hne, rfl⟩ := hreads.exists_more hreads' (hsource.symm.trans hsource') hlt
  have hpos : 0 < byteSize more := Nat.pos_of_ne_zero fun h => hne (byteSize_eq_zero_iff.mp h)
  rw [← byteSize_toList, hsource', byteSize_append] at hsize
  rw [start_report, start_report, UInt32.lt_iff_toNat_lt, byteSize_append] at *
  rw [toNat_clamp_of_le (by omega), toNat_clamp_of_le (by omega)]
  omega

/-- The nesting limit changes a result only by cutting it off. Each source has a
    threshold. From there on, its result is the same under every limit. Under each
    smaller limit the nesting is too deep, and the larger the limit, the larger the
    offset at which it is. The threshold of a program is its depth. -/
theorem exists_threshold (source : String) :
    ∃ (threshold : Nat) (result : Except ParseError Expr),
      1 ≤ threshold ∧ threshold ≤ 1 + source.toList.count '(' ∧
      (∀ limit, threshold ≤ limit → parseWithin limit source = result) ∧
      (∀ limit span, result ≠ .error ⟨.nestingTooDeep limit, span⟩) ∧
      (∀ limit, limit < threshold →
        ∃ offset, parseWithin limit source = .error ⟨.nestingTooDeep limit, .point offset⟩) ∧
      (source.utf8ByteSize < 2 ^ 32 - 1 → ∀ limit limit' err err', limit < limit' →
        limit' < threshold → parseWithin limit source = .error err →
        parseWithin limit' source = .error err' → err.span.start < err'.span.start) ∧
      (∀ e, result = .ok e → threshold = e.depth) ∧
      (∀ limit limit' err, limit ≤ limit' → (∀ n, err.kind ≠ .nestingTooDeep n) →
        parseWithin limit source = .error err → parseWithin limit' source = .error err) := by
  classical
  have hex : ∃ limit, Passes limit source.toList := ⟨_, passes_of_count_lt (Nat.lt_succ_self _)⟩
  obtain ⟨threshold, hpasses, hleast⟩ : ∃ threshold, Passes threshold source.toList ∧
      ∀ limit, limit < threshold → ¬ Passes limit source.toList :=
    ⟨Nat.find hex, Nat.find_spec hex, fun _ => Nat.find_min hex⟩
  have hbelow (limit : Nat) (hlt : limit < threshold) :
      ∃ offset, parseWithin limit source = .error ⟨.nestingTooDeep limit, .point offset⟩ :=
    parseWithin_of_not_passes (hleast limit hlt)
  refine ⟨threshold, parseWithin threshold source, ?_, ?_, ?_, ?_, hbelow, ?_, ?_, ?_⟩
  · refine Nat.pos_of_ne_zero ?_
    rintro rfl
    exact not_passes_zero _ hpasses
  · refine Nat.le_of_not_lt fun hlt => hleast _ hlt ?_
    exact passes_of_count_lt (Nat.lt_one_add_iff.mpr (Nat.le_refl _))
  · intro limit hle
    exact parseWithin_eq_of_passes hpasses hle
  · intro limit span
    exact parseWithin_ne_of_passes hpasses
  · intro hsize limit limit' err err' hlt hlt' herr herr'
    exact start_lt_start (Nat.le_of_lt hsize) hlt (hleast _ (Nat.lt_trans hlt hlt'))
      (hleast _ hlt') herr herr'
  · intro e he
    obtain ⟨hspells, hdepth⟩ := parseWithin_eq_ok_iff.mp he
    refine Nat.le_antisymm (Nat.le_of_not_lt fun hlt => ?_) hdepth
    obtain ⟨offset, herr⟩ := hbelow _ hlt
    rw [parseWithin_eq_ok_iff.mpr ⟨hspells, Nat.le_refl _⟩] at herr
    cases herr
  · intro limit limit' err hle hkind herr
    have hpasses' : Passes limit source.toList := by
      refine Classical.byContradiction ?_
      intro hcut
      obtain ⟨offset, hoffset⟩ := parseWithin_of_not_passes hcut
      obtain rfl := Except.error.inj (herr.symm.trans hoffset)
      exact hkind limit rfl
    rw [parseWithin_eq_of_passes hpasses' hle, herr]

end Egg.Expr
