import TagMarkup.Proofs.Parser.Scan

/-!
# Positions do not matter

A parser started inside a text does what it does on the units left there, whatever stands before
them: `Parser.run_eq_scan` compares the two readings, and `Grammar.run_eq_scan` does so for the
rules of a grammar. Reading from an offset therefore equals reading the rest of the text from its
beginning, with every offset moved by the same amount.

## Implementation notes

A place inside a text is given by the units left there, a suffix of the text; `Text.offsetOf` is
its offset.
-/

namespace TagMarkup

namespace Text

/-- The offset at which the given units are left of a text. -/
def offsetOf (t : Text) (us : List CodeUnit) : Int :=
  t.size - us.length

theorem offsetOf_drop (t : Text) {k : Nat} (inside : k ≤ t.size) :
    t.offsetOf (t.toList.drop k) = k := by
  simp only [offsetOf, List.length_drop, length_toList]
  omega

theorem length_le_of_suffix {t : Text} {us : List CodeUnit} (left : us <:+ t.toList) :
    us.length ≤ t.size := by
  simpa using left.length_le

theorem drop_of_suffix {t : Text} {us : List CodeUnit} (left : us <:+ t.toList) :
    t.toList.drop (t.size - us.length) = us := by
  have h := List.suffix_iff_eq_drop.mp left
  rw [length_toList] at h
  exact h.symm

/-- Looking ahead from a place reads the units left there. -/
theorem at?_offsetOf {t : Text} {us : List CodeUnit} (left : us <:+ t.toList) (i : Nat) :
    t.at? (t.offsetOf us + i) = us[i]? := by
  have hle := length_le_of_suffix left
  have hp : t.offsetOf us + i = ((t.size - us.length + i : Nat) : Int) := by
    simp only [offsetOf]
    omega
  rw [hp, at?_natCast, ← List.getElem?_drop, drop_of_suffix left]

theorem matchesAt_offsetOf {t s : Text} {us : List CodeUnit} (left : us <:+ t.toList) :
    t.matchesAt s (t.offsetOf us) = true ↔ s.toList <+: us := by
  have hle := length_le_of_suffix left
  have hstart : min (t.offsetOf us).toNat t.size = t.size - us.length := by
    simp only [offsetOf]
    omega
  rw [matchesAt_iff, hstart, drop_of_suffix left]

theorem drop_eq_cons {t : Text} {start : Nat} (h : start < t.units.size) :
    t.toList.drop start = t.units[start] :: t.toList.drop (start + 1) := by
  rw [← Array.getElem_toList h]
  exact List.drop_eq_getElem_cons (by simpa using h : start < t.units.toList.length)

/-- A run of units ends after the longest stretch of its class. -/
theorem runEnd_eq (cls : CodeUnit → Bool) (t : Text) (start : Nat) :
    t.runEnd cls start = start + ((t.toList.drop start).takeWhile cls).length := by
  fun_induction runEnd cls t start with
  | case1 start h hc ih =>
      rw [ih, drop_eq_cons h, List.takeWhile_cons_of_pos hc, List.length_cons]
      omega
  | case2 start h hc =>
      rw [drop_eq_cons h, List.takeWhile_cons_of_neg hc]
      rfl
  | case3 start h =>
      have hd : t.toList.drop start = [] := by
        apply List.drop_eq_nil_of_le
        simpa [toList] using h
      simp [hd]

section RunEnd

variable {t : Text} {u : CodeUnit} {us : List CodeUnit} (left : u :: us <:+ t.toList)
  (cls : CodeUnit → Bool)
include left

theorem runEnd_of_suffix :
    t.runEnd cls (t.size - (u :: us).length + 1) =
      t.size - (u :: us).length + 1 + (us.takeWhile cls).length := by
  have hnext : t.toList.drop (t.size - (u :: us).length + 1) = us := by
    rw [← List.drop_drop, drop_of_suffix left, List.drop_one, List.tail_cons]
  rw [runEnd_eq, hnext]

/-- A unit and the run of units behind it, cut out of the text. -/
theorem slice_runEnd :
    t.slice (t.size - (u :: us).length) (t.runEnd cls (t.size - (u :: us).length + 1)) =
      .ofList (u :: us.takeWhile cls) := by
  have htake : us.take (us.takeWhile cls).length = us.takeWhile cls :=
    (List.prefix_iff_eq_take.mp (List.takeWhile_prefix cls)).symm
  rw [runEnd_of_suffix left, ← toList_inj, toList_slice, List.drop_take, drop_of_suffix left,
    toList_ofList, Nat.add_assoc, Nat.add_sub_cancel_left, Nat.add_comm, List.take_succ_cons,
    htake]

/-- What is left behind a unit and the run of units behind it starts where the run ends. -/
theorem offsetOf_dropWhile :
    t.offsetOf (us.dropWhile cls) = t.runEnd cls (t.size - (u :: us).length + 1) := by
  have hle := length_le_of_suffix left
  have hsplit := congrArg List.length (List.takeWhile_append_dropWhile (p := cls) (l := us))
  rw [List.length_append] at hsplit
  rw [runEnd_of_suffix left, offsetOf]
  rw [List.length_cons] at hle ⊢
  omega

end RunEnd

end Text

namespace Scan

variable {α : Type}

/-- The result in a text of a given size, in which the units left over give the offset. -/
def result (size : Nat) : Scan α → Result α
  | success a rest => .success a (size - rest.length)
  | failure rest => .failure (size - rest.length)

end Scan

namespace Scanned

variable {α β : Type}

/-- What a run in a text of a given size comes to. -/
def outcome (size : Nat) (x : Scanned α) : Outcome α :=
  x.map (Scan.result size)

/-- Nothing but the end of the given units is left. -/
def Within (us : List CodeUnit) (x : Scanned α) : Prop :=
  ∀ s, x = .ok s → s.rest <:+ us

theorem within_error (us : List CodeUnit) (fault : Fault) :
    Within us (.error fault : Scanned α) := by
  intro s h
  cases h

theorem within_ok {us : List CodeUnit} {s : Scan α} : Within us (.ok s) ↔ s.rest <:+ us := by
  simp [Within]

theorem within_failure (us : List CodeUnit) : Within us (.ok (.failure us) : Scanned α) :=
  within_ok.mpr (List.suffix_refl us)

theorem Within.mono {us vs : List CodeUnit} {x : Scanned α} (h : Within vs x) (left : vs <:+ us) :
    Within us x :=
  fun s hs => (h s hs).trans left

theorem Within.andThen {us : List CodeUnit} {x : Scanned α}
    {next : α → List CodeUnit → Scanned β} (hx : Within us x)
    (hnext : ∀ a rest, rest <:+ us → Within us (next a rest)) :
    Within us (Scanned.andThen x next) := by
  cases x using cases with
  | error fault => exact within_error us fault
  | success a rest => exact hnext a rest (hx _ rfl)
  | failure rest => exact within_ok.mpr (hx _ rfl)

theorem Within.orElse {us : List CodeUnit} {x : Scanned α} {next : List CodeUnit → Scanned α}
    (hx : Within us x) (hnext : ∀ rest, Within us (next rest)) :
    Within us (Scanned.orElse x next) := by
  cases x using cases with
  | error fault => exact within_error us fault
  | success a rest => exact within_ok.mpr (hx _ rfl)
  | failure rest => exact hnext rest

/-- Going on after a success commutes with giving offsets to what is left. -/
theorem outcome_andThen {text : Text} {x : Scanned α} {next : α → List CodeUnit → Scanned β}
    {follow : α → Int → Outcome β} (hx : Within text.toList x)
    (h : ∀ a rest, rest <:+ text.toList →
      follow a (text.offsetOf rest) = (next a rest).outcome text.size) :
    Outcome.andThen (x.outcome text.size) follow = (andThen x next).outcome text.size := by
  cases x using cases with
  | error fault => rfl
  | success a rest => exact h a rest (hx _ rfl)
  | failure rest => rfl

/-- Going on after a failure commutes with giving offsets to what is left. -/
theorem outcome_orElse {size : Nat} {x : Scanned α} {next : List CodeUnit → Scanned α}
    {follow : Int → Outcome α} (h : ∀ q rest, follow q = (next rest).outcome size) :
    Outcome.orElse (x.outcome size) follow = (orElse x next).outcome size := by
  cases x using cases with
  | error fault => rfl
  | success a rest => rfl
  | failure rest => exact h _ rest

end Scanned

namespace Parser

variable {R : Type} {ρ : R → Type} {α : Type}

theorem scanLiteral_within (expected : Text) (us : List CodeUnit) :
    (scanLiteral expected us).rest <:+ us := by
  unfold scanLiteral
  split
  · exact List.drop_suffix _ _
  · exact List.suffix_refl us

theorem scanCharacter_within (us : List CodeUnit) : (scanCharacter us).rest <:+ us := by
  fun_cases scanCharacter us with
  | case1 => exact List.suffix_refl []
  | case2 u => exact List.nil_suffix
  | case3 u v us paired => exact ⟨[u, v], rfl⟩
  | case4 u v us paired => exact List.suffix_cons u (v :: us)

theorem scanName_within (us : List CodeUnit) : (scanName us).rest <:+ us := by
  fun_cases scanName us with
  | case1 => exact List.suffix_refl []
  | case2 u us letter => exact (List.dropWhile_suffix _).trans (List.suffix_cons u us)
  | case3 u us letter => exact List.suffix_refl _

theorem scanRepeat_within {item : List CodeUnit → Scanned α}
    (h : ∀ us, Scanned.Within us (item us)) (us : List CodeUnit) :
    Scanned.Within us (scanRepeat item us) := by
  fun_induction scanRepeat item us with
  | case1 us fault hi => exact Scanned.within_error us fault
  | case2 us rest hi => exact Scanned.within_ok.mpr (List.suffix_refl us)
  | case3 us a rest hi shorter ih =>
      have hrest : rest <:+ us := h us _ hi
      exact (ih.mono hrest).andThen fun as left hl => Scanned.within_ok.mpr hl
  | case4 us a rest hi shorter => exact Scanned.within_ok.mpr (List.suffix_refl us)

/-- A reading leaves the end of the units it was given. -/
theorem scan_within {call : (r : R) → List CodeUnit → Scanned (ρ r)}
    (hcall : ∀ r us, Scanned.Within us (call r us)) (parser : Parser ρ α) (us : List CodeUnit) :
    Scanned.Within us (parser.scan call us) := by
  induction parser generalizing us with
  | literal expected => exact Scanned.within_ok.mpr (scanLiteral_within expected us)
  | character => exact Scanned.within_ok.mpr (scanCharacter_within us)
  | name => exact Scanned.within_ok.mpr (scanName_within us)
  | raise fault => exact Scanned.within_error us fault
  | rule r => exact hcall r us
  | transform f inner ih =>
      apply (ih us).andThen
      intro a rest hr
      cases f a with
      | ok b => exact Scanned.within_ok.mpr hr
      | error fault => exact Scanned.within_error us fault
  | filter test inner ih =>
      apply (ih us).andThen
      intro a rest hr
      cases test a with
      | ok accepted =>
          cases accepted with
          | true => exact Scanned.within_ok.mpr hr
          | false => exact Scanned.within_failure us
      | error fault => exact Scanned.within_error us fault
  | attempt inner ih =>
      exact (ih us).orElse fun _ => Scanned.within_failure us
  | seq first second ih₁ ih₂ =>
      apply (ih₁ us).andThen
      intro a rest hr
      exact ((ih₂ rest).mono hr).andThen fun b left hl => Scanned.within_ok.mpr hl
  | bind first next ih₁ ih₂ =>
      apply (ih₁ us).andThen
      intro a rest hr
      exact (ih₂ a rest).mono hr
  | orElse first second ih₁ ih₂ => exact (ih₁ us).orElse fun _ => ih₂ us
  | many item ih => exact scanRepeat_within ih us
  | many1 item ih =>
      apply ((ih us).orElse fun _ => Scanned.within_failure us).andThen
      intro a rest hr
      exact ((scanRepeat_within ih rest).mono hr).andThen fun as left hl =>
        Scanned.within_ok.mpr hl

theorem readLiteral_eq_scan {text : Text} (expected : Text) {us : List CodeUnit}
    (left : us <:+ text.toList) :
    readLiteral text expected (text.offsetOf us) =
      (scanLiteral expected us).result text.size := by
  unfold readLiteral scanLiteral
  by_cases h : expected.toList <+: us
  · have hle := h.length_le
    rw [if_pos ((Text.matchesAt_offsetOf left).mpr h), if_pos h]
    simp only [Scan.result, Text.offsetOf, List.length_drop, Text.length_toList] at hle ⊢
    congr 1
    omega
  · rw [if_neg (fun hm => h ((Text.matchesAt_offsetOf left).mp hm)), if_neg h]
    rfl

theorem readCharacter_eq_scan {text : Text} {us : List CodeUnit} (left : us <:+ text.toList) :
    readCharacter text (text.offsetOf us) = (scanCharacter us).result text.size := by
  have h₀ := Text.at?_offsetOf left 0
  have h₁ := Text.at?_offsetOf left 1
  simp only [Int.natCast_zero, Int.add_zero, Int.natCast_one] at h₀ h₁
  unfold readCharacter Text.character?
  rw [h₀, h₁]
  rcases us with _ | ⟨u, _ | ⟨v, rest⟩⟩
  · rfl
  · simp [scanCharacter, Scan.result, Text.offsetOf, Text.singleton, Text.size]
  · simp only [List.getElem?_cons_zero, List.getElem?_cons_succ, Option.map_some, scanCharacter]
    by_cases paired : (u.isHighSurrogate && v.isLowSurrogate) = true
    · simp only [if_pos paired, Scan.result, Text.offsetOf, Text.size, List.length_cons]
      simp only [List.size_toArray, List.length_cons, List.length_nil]
      congr 1
      omega
    · simp only [if_neg paired, Scan.result, Text.offsetOf, Text.singleton, Text.size,
        List.length_cons, List.size_toArray, List.length_nil]
      congr 1
      omega

theorem readName_eq_scan {text : Text} {us : List CodeUnit} (left : us <:+ text.toList) :
    readName text (text.offsetOf us) = (scanName us).result text.size := by
  have h₀ := Text.at?_offsetOf left 0
  simp only [Int.natCast_zero, Int.add_zero] at h₀
  unfold readName
  rw [h₀]
  cases us with
  | nil => rfl
  | cons u rest =>
      simp only [List.getElem?_cons_zero, scanName]
      by_cases letter : u.isLetter = true
      · have hle := Text.length_le_of_suffix left
        have hstart : (text.offsetOf (u :: rest)).toNat = text.size - (u :: rest).length := by
          simp only [Text.offsetOf]
          omega
        rw [if_pos letter, if_pos letter, hstart, Text.slice_runEnd left,
          ← Text.offsetOf_dropWhile left]
        rfl
      · rw [if_neg letter, if_neg letter]
        rfl

theorem bound_offsetOf (text : Text) (us : List CodeUnit) :
    bound text (text.offsetOf us) = text.size := by
  simp only [bound, Text.offsetOf]
  omega

theorem repeatFrom_eq_scan {text : Text} {item : Int → Outcome α}
    {scanned : List CodeUnit → Scanned α} (within : ∀ us, Scanned.Within us (scanned us))
    (agree : ∀ us, us <:+ text.toList →
      item (text.offsetOf us) = (scanned us).outcome text.size)
    {us : List CodeUnit} (left : us <:+ text.toList) (read : List α) :
    repeatFrom (m := Except Fault) item text.size read (text.offsetOf us) =
      (Scanned.andThen (scanRepeat scanned us) fun as rest =>
        .ok (.success (read.reverse ++ as) rest)).outcome text.size := by
  fun_induction scanRepeat scanned us generalizing read with
  | case1 us fault hi =>
      rw [repeatFrom_eq, agree us left, hi]
      rfl
  | case2 us rest hi =>
      rw [repeatFrom_eq, agree us left, hi]
      simp [Scanned.outcome, Except.map, Scan.result, Text.offsetOf]
  | case3 us a rest hi shorter ih =>
      have hrest : rest <:+ us := within us _ hi
      have hgrow : text.offsetOf us < text.offsetOf rest ∧ text.offsetOf rest ≤ text.size := by
        simp only [Text.offsetOf]
        omega
      rw [repeatFrom_eq, agree us left, hi]
      simp only [Scanned.outcome, Except.map, Scan.result]
      rw [← Text.offsetOf, if_pos hgrow, ih (hrest.trans left)]
      cases scanRepeat scanned rest using Scanned.cases with
      | error fault => rfl
      | success as more => simp [Scanned.outcome, Except.map, Scan.result]
      | failure more => rfl
  | case4 us a rest hi shorter =>
      have hstay : ¬ (text.offsetOf us < text.offsetOf rest ∧ text.offsetOf rest ≤ text.size) := by
        simp only [Text.offsetOf]
        omega
      rw [repeatFrom_eq, agree us left, hi]
      simp only [Scanned.outcome, Except.map, Scan.result]
      rw [← Text.offsetOf, if_neg hstay]
      simp [Text.offsetOf]

/-- Running a parser inside a text is reading the units left there, provided that this holds of
the rules. -/
theorem run_eq_scan {text : Text} {call : (r : R) → Int → Outcome (ρ r)}
    {scanned : (r : R) → List CodeUnit → Scanned (ρ r)}
    (within : ∀ r us, Scanned.Within us (scanned r us))
    (agree : ∀ r us, us <:+ text.toList →
      call r (text.offsetOf us) = (scanned r us).outcome text.size)
    (parser : Parser ρ α) {us : List CodeUnit} (left : us <:+ text.toList) :
    parser.run call text (text.offsetOf us) = (parser.scan scanned us).outcome text.size := by
  have inside {β : Type} (p : Parser ρ β) {vs : List CodeUnit} (hv : vs <:+ text.toList) :
      Scanned.Within text.toList (p.scan scanned vs) :=
    (scan_within within p vs).mono hv
  induction parser generalizing us with
  | literal expected => exact congrArg Except.ok (readLiteral_eq_scan expected left)
  | character => exact congrArg Except.ok (readCharacter_eq_scan left)
  | name => exact congrArg Except.ok (readName_eq_scan left)
  | raise fault => rfl
  | rule r => exact agree r us left
  | transform f inner ih =>
      rw [run_transform, ih left]
      apply Scanned.outcome_andThen (inside inner left)
      intro a rest _
      cases f a with
      | ok b => rfl
      | error fault => rfl
  | filter test inner ih =>
      rw [run_filter, ih left]
      apply Scanned.outcome_andThen (inside inner left)
      intro a rest _
      cases test a with
      | ok accepted => cases accepted <;> rfl
      | error fault => rfl
  | attempt inner ih =>
      rw [run_attempt, ih left]
      exact Scanned.outcome_orElse fun _ _ => rfl
  | seq first second ih₁ ih₂ =>
      rw [run_seq, ih₁ left]
      apply Scanned.outcome_andThen (inside first left)
      intro a rest hr
      rw [ih₂ hr]
      apply Scanned.outcome_andThen (inside second hr)
      intro b more _
      rfl
  | bind first next ih₁ ih₂ =>
      rw [run_bind, ih₁ left]
      apply Scanned.outcome_andThen (inside first left)
      intro a rest hr
      exact ih₂ a hr
  | orElse first second ih₁ ih₂ =>
      rw [run_orElse, ih₁ left, ih₂ left]
      exact Scanned.outcome_orElse fun _ _ => rfl
  | many item ih =>
      rw [run_many, bound_offsetOf, repeatFrom_eq_scan (scan_within within item)
        (fun vs hv => ih hv) left []]
      rw [scan]
      cases scanRepeat (item.scan scanned) us using Scanned.cases <;> rfl
  | many1 item ih =>
      have hfirst : Outcome.orElse ((item.scan scanned us).outcome text.size)
          (fun _ => .ok (.failure (text.offsetOf us))) =
          (Scanned.orElse (item.scan scanned us) fun _ => .ok (.failure us)).outcome text.size :=
        Scanned.outcome_orElse fun _ _ => rfl
      rw [run_many1, ih left, hfirst]
      apply Scanned.outcome_andThen
        (((scan_within within item us).orElse fun _ => Scanned.within_failure us).mono left)
      intro a rest hr
      rw [bound_offsetOf, repeatFrom_eq_scan (scan_within within item) (fun vs hv => ih hv) hr [a]]
      rfl

end Parser

namespace Grammar

variable {R : Type} {ρ : R → Type} {α : Type}

theorem scanCall_within (g : Grammar ρ) (limit : Nat) (r : R) (us : List CodeUnit) :
    Scanned.Within us (g.scanCall limit r us) := by
  induction limit generalizing r us with
  | zero => exact Scanned.within_error us .exhausted
  | succ limit ih => exact Parser.scan_within ih (g r) us

theorem call_eq_scanCall (g : Grammar ρ) (limit : Nat) (r : R) {text : Text} {us : List CodeUnit}
    (left : us <:+ text.toList) :
    g.call text limit r (text.offsetOf us) = (g.scanCall limit r us).outcome text.size := by
  induction limit generalizing r us with
  | zero => rfl
  | succ limit ih =>
      exact Parser.run_eq_scan (g.scanCall_within limit) (fun r us h => ih r h) (g r) left

/-- Running a parser inside a text with the rules of a grammar is reading the units left there. -/
theorem run_eq_scan (g : Grammar ρ) (limit : Nat) (parser : Parser ρ α) {text : Text}
    {us : List CodeUnit} (left : us <:+ text.toList) :
    g.run limit parser text (text.offsetOf us) = (g.scan limit parser us).outcome text.size :=
  Parser.run_eq_scan (g.scanCall_within limit) (fun r _ h => g.call_eq_scanCall limit r h) parser
    left

theorem run_natCast_eq_scan (g : Grammar ρ) (limit : Nat) (parser : Parser ρ α) {text : Text}
    {start : Nat} (inside : start ≤ text.size) :
    g.run limit parser text start =
      (g.scan limit parser (text.toList.drop start)).outcome text.size := by
  have h := g.run_eq_scan limit parser (List.drop_suffix start text.toList)
  rwa [Text.offsetOf_drop text inside] at h

/-- What is read from inside a text ends inside it, and is what the units left at the start are read
as, up to those left at the end. -/
theorem exists_scan_of_run (g : Grammar ρ) {limit : Nat} {parser : Parser ρ α} {text : Text}
    {start : Nat} (inside : start ≤ text.size) {a : α} {q : Int}
    (h : g.run limit parser text start = .ok (.success a q)) :
    ∃ stop : Nat, q = stop ∧ stop ≤ text.size ∧
      g.scan limit parser (text.toList.drop start) = .ok (.success a (text.toList.drop stop)) := by
  have hrun := g.run_natCast_eq_scan limit parser inside
  have within := Parser.scan_within (g.scanCall_within limit) parser (text.toList.drop start)
  rw [h, scan] at hrun
  rw [scan]
  cases hscan : parser.scan (g.scanCall limit) (text.toList.drop start) using Scanned.cases with
  | error fault =>
      rw [hscan] at hrun
      cases hrun
  | failure rest =>
      rw [hscan] at hrun
      cases hrun
  | success b rest =>
      rw [hscan] at hrun
      cases hrun
      have left : rest <:+ text.toList := (within _ hscan).trans (List.drop_suffix _ _)
      have hle := Text.length_le_of_suffix left
      refine ⟨text.size - rest.length, by omega, Nat.sub_le _ _, ?_⟩
      rw [Text.drop_of_suffix left]

end Grammar

namespace Result

variable {α : Type}

/-- The same result at an offset moved by `k`. -/
def shift (k : Int) : Result α → Result α
  | success a q => .success a (q + k)
  | failure q => .failure (q + k)

end Result

namespace Scan

variable {α : Type}

theorem result_shift (s : Scan α) (size k : Nat) :
    s.result (size + k) = (s.result size).shift k := by
  cases s with
  | success a rest =>
      simp only [result, Result.shift]
      congr 1
      omega
  | failure rest =>
      simp only [result, Result.shift]
      congr 1
      omega

end Scan

namespace Grammar

variable {R : Type} {ρ : R → Type} {α : Type}

/-- Reading from an offset is reading the rest of the text from its beginning: the same value, the
same fault, and every offset moved by as much. -/
theorem run_eq_run_suffixFrom (g : Grammar ρ) (limit : Nat) (parser : Parser ρ α) (text : Text)
    (k : Nat) (inside : k ≤ text.size) :
    g.run limit parser text k =
      (g.run limit parser (text.suffixFrom k) 0).map (Result.shift k) := by
  have hcut : text.cut k = k := by
    rw [Text.cut, if_neg (by omega)]
    omega
  have hrest : (text.suffixFrom k).toList = text.toList.drop k := by
    rw [Text.toList_suffixFrom, hcut]
  have hsize : text.size = (text.suffixFrom k).size + k := by
    rw [← Text.length_toList (text.suffixFrom k), hrest, List.length_drop, Text.length_toList]
    omega
  have hfrom := g.run_eq_scan limit parser (List.drop_suffix k text.toList)
  have hbegin := g.run_eq_scan limit parser (List.suffix_refl (text.suffixFrom k).toList)
  rw [Text.offsetOf_drop text inside] at hfrom
  rw [Text.offsetOf, Text.length_toList, Int.sub_self, hrest] at hbegin
  calc g.run limit parser text k
      _ = (g.scan limit parser (text.toList.drop k)).outcome text.size := hfrom
      _ = ((g.scan limit parser (text.toList.drop k)).outcome (text.suffixFrom k).size).map
          (Result.shift k) := by
        cases g.scan limit parser (text.toList.drop k) with
        | error fault => rfl
        | ok s =>
            apply congrArg Except.ok
            rw [hsize, Scan.result_shift]
      _ = (g.run limit parser (text.suffixFrom k) 0).map (Result.shift k) := by rw [hbegin]

/-- Reading characters one by one from the middle of a pair. -/
theorem run_eq_run_suffixFrom_lone_half :
    1 ≤ Text.size ⟨#[0xD83D, 0xDE00]⟩ ∧
      run (fun _ : Unit => Parser.character.many) 1 (.rule ()) ⟨#[0xD83D, 0xDE00]⟩ 1 =
        (run (fun _ : Unit => Parser.character.many) 1 (.rule ())
          (Text.suffixFrom ⟨#[0xD83D, 0xDE00]⟩ 1) 0).map (Result.shift 1) :=
  have inside : 1 ≤ Text.size ⟨#[0xD83D, 0xDE00]⟩ := by decide
  ⟨inside, run_eq_run_suffixFrom (fun _ : Unit => Parser.character.many) 1 (.rule ())
    ⟨#[0xD83D, 0xDE00]⟩ 1 inside⟩

end Grammar

end TagMarkup
