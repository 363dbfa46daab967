import TurtleLogo.Procedure
import TurtleLogo.Proofs.Text.Fold

set_option autoImplicit false

/-! # Words that are names

Whether a word can name a procedure shows in its first character, which folding keeps where it
rules a name out. So a registry knows only names if its keys are names, and the registry of a new
interpreter does. No other character folds to one of those marks, so a word that is a single mark
shares its entry in a table with no other word. -/

namespace TurtleLogo

variable {w : String} {c c' : Char} {cs : List Char}

/-! ## First characters -/

theorem ne_of_head {v : String} (hw : w.toList = c :: cs) (hv : v.toList.head? ≠ some c) :
    w ≠ v := by
  rintro rfl
  rw [hw] at hv
  exact hv rfl

theorem Decimal.Numeral.parse?_eq_none (cs : List Char) (hdigit : c.isDigit = false)
    (hpoint : c ≠ '.') (hminus : c ≠ '-') : parse? (c :: cs) = none := by
  have hspan : spanDigits (c :: cs) = ([], c :: cs) := by
    simp [spanDigits, hdigit]
  unfold parse?
  split
  · next heq => exact absurd (List.cons.inj heq).1 hminus
  · simp only [unsigned?, hspan]
    split
    · next heq => exact absurd (List.cons.inj heq).1 hpoint
    · rfl

theorem numeral?_eq_none (hw : w.toList = c :: cs) (hdigit : c.isDigit = false)
    (hpoint : c ≠ '.') (hminus : c ≠ '-') : numeral? w = none := by
  rw [numeral?, hw, Decimal.Numeral.parse?_eq_none cs hdigit hpoint hminus]
  rfl

theorem Operator.ofWord?_eq_none (hw : w.toList = c :: cs)
    (hop : ∀ op : Operator, op.symbol.toList.head? ≠ some c) : ofWord? w = none := by
  cases hfound : ofWord? w with
  | none => rfl
  | some op =>
    have hsymbol : op.symbol = w := by simpa using List.find?_some hfound
    exact absurd hsymbol.symm (ne_of_head hw (hop op))

namespace Definition

/-- The characters other than digits that words begin with which are no names. -/
def signs : List Char :=
  ['.', '-', '(', ')', ':', '"', '=', '<', '>', '+', '*', '/', '%', '^']

/-- The characters that words begin with which are no names. -/
def isMark (c : Char) : Bool :=
  c.isDigit || signs.contains c

theorem ne_of_isMark (hc : isMark c = false) (hc' : isMark c' = true) : c ≠ c' := by
  rintro rfl
  rw [hc] at hc'
  exact absurd hc' (by decide)

theorem symbol_isMark (op : Operator) : op.symbol.toList.head?.any isMark = true := by
  cases op <;> decide

theorem isName_of_head (hw : w.toList = c :: cs) (hc : isMark c = false) : isName w = true := by
  have hhead : ∀ v : String, v.toList.head?.any isMark = true → v.toList.head? ≠ some c := by
    intro v hv heq
    rw [heq, Option.any_some, hc] at hv
    exact absurd hv (by decide)
  have hnumeral : isNumeral w = false := by
    have hdigit : c.isDigit = false := (Bool.or_eq_false_iff.mp hc).1
    rw [isNumeral, hw, Decimal.Numeral.parse?_eq_none cs hdigit (ne_of_isMark hc (by decide))
      (ne_of_isMark hc (by decide))]
    rfl
  have hinfix : isInfix w = false := by
    rw [isInfix, Operator.ofWord?_eq_none hw fun op => hhead _ (symbol_isMark op)]
    rfl
  have hopen : w ≠ "(" := ne_of_head hw (hhead _ (by decide))
  have hclose : w ≠ ")" := ne_of_head hw (hhead _ (by decide))
  have hcolon : c ≠ ':' := ne_of_isMark hc (by decide)
  have hquote : c ≠ '"' := ne_of_isMark hc (by decide)
  simp [isName, hnumeral, hinfix, hopen, hclose, hw, hcolon, hquote]

/-! ## Folding -/

theorem lowerChar_of_isDigit (h : c.isDigit = true) : Text.lowerChar c = [c] := by
  obtain ⟨-, hhigh⟩ : 48 ≤ c.val ∧ c.val ≤ 57 := by simpa [Char.isDigit] using h
  rw [UInt32.le_iff_toNat_le] at hhigh
  have hlt : c.toNat < 0x80 := Nat.lt_of_le_of_lt hhigh (by decide)
  have hupper : ¬ (c.val ≥ 'A'.val ∧ c.val ≤ 'Z'.val) := by
    rintro ⟨hlow, -⟩
    have habsurd : 65 ≤ 57 := Nat.le_trans (UInt32.le_iff_toNat_le.mp hlow) hhigh
    exact absurd habsurd (by decide)
  have hlower : c.toLower = c := dif_neg hupper
  rw [Text.lowerChar, if_pos hlt, hlower]

theorem lowerChar_of_isMark (h : isMark c = true) : Text.lowerChar c = [c] := by
  have hsigns : signs.all (fun c => Text.lowerChar c == [c]) = true := by decide
  rcases Bool.or_eq_true_iff.mp h with hdigit | hsign
  · exact lowerChar_of_isDigit hdigit
  · exact eq_of_beq (List.all_eq_true.mp hsigns c (List.contains_iff_mem.mp hsign))

theorem isMark_bounds (h : isMark c = true) : 0 < c.toNat ∧ c.toNat < 0x61 := by
  have hsigns : signs.all (fun c => decide (0 < c.toNat ∧ c.toNat < 0x61)) = true := by decide
  rcases Bool.or_eq_true_iff.mp h with hdigit | hsign
  · obtain ⟨hlow, hhigh⟩ : 48 ≤ c.val ∧ c.val ≤ 57 := by simpa [Char.isDigit] using hdigit
    have hlow' : 48 ≤ c.toNat := UInt32.le_iff_toNat_le.mp hlow
    have hhigh' : c.toNat ≤ 57 := UInt32.le_iff_toNat_le.mp hhigh
    omega
  · simpa using List.all_eq_true.mp hsigns c (List.contains_iff_mem.mp hsign)

theorem not_isMark_ofNat {n : Nat} (h : 0x61 ≤ n) : isMark (Char.ofNat n) = false := by
  cases hmark : isMark (Char.ofNat n) with
  | false => rfl
  | true =>
    obtain ⟨hpos, hlt⟩ := isMark_bounds hmark
    rcases Text.toNat_ofNat n with heq | heq <;> omega

theorem toLower_cases (c : Char) : c.toLower = c ∨ 0x61 ≤ c.toLower.toNat := by
  by_cases hupper : c.val ≥ 'A'.val ∧ c.val ≤ 'Z'.val
  · right
    have hlow : 65 ≤ c.val.toNat := UInt32.le_iff_toNat_le.mp hupper.1
    have hhigh : c.val.toNat ≤ 90 := UInt32.le_iff_toNat_le.mp hupper.2
    have hlower : c.toLower.val = c.val + 32 := congrArg Char.val (dif_pos hupper)
    have hval : c.toLower.toNat = (c.val + 32).toNat := congrArg UInt32.toNat hlower
    rw [hval, UInt32.toNat_add]
    have h32 : (32 : UInt32).toNat = 32 := rfl
    omega
  · exact Or.inl (dif_neg hupper)

/-- A mark is the lower-case form of nothing but itself. -/
theorem eq_of_mem_lowerChar (h : c' ∈ Text.lowerChar c) (hmark : isMark c' = true) : c' = c := by
  have hexpansions : Text.lowerExpansions.all
      (fun e => e.2.all fun n => decide (0x61 ≤ n)) = true := by decide
  have hruns : Text.lowerRuns.all (fun r => decide (0x61 ≤ (r.first : Int) + r.shift)) = true := by
    decide
  have hbounds := isMark_bounds hmark
  have hlowers := Text.lowersTo c
  generalize Text.lowerChar c = lower at h hlowers
  cases hlowers with
  | ascii =>
    rw [List.mem_singleton] at h
    rcases toLower_cases c with hsame | hletter
    · rw [h, hsame]
    · rw [h] at hbounds
      omega
  | same => exact List.mem_singleton.mp h
  | expanded _ hmem =>
    obtain ⟨n, hn, rfl⟩ := List.mem_map.mp h
    have hall := List.all_eq_true.mp hexpansions _ hmem
    have hle : 0x61 ≤ n := by simpa using List.all_eq_true.mp hall n hn
    rw [not_isMark_ofNat hle] at hmark
    cases hmark
  | @shifted run n _ hmem hfirst _ hn =>
    rw [List.mem_singleton] at h
    subst h
    have hle : 0x61 ≤ (run.first : Int) + run.shift := by
      simpa using List.all_eq_true.mp hruns run hmem
    rw [not_isMark_ofNat (by omega)] at hmark
    cases hmark

theorem lowerChar_ne_nil (c : Char) : Text.lowerChar c ≠ [] := by
  have hexpansions : Text.lowerExpansions.all (fun e => !e.2.isEmpty) = true := by decide
  have hlowers := Text.lowersTo c
  generalize Text.lowerChar c = lower at hlowers
  cases hlowers with
  | ascii | same | shifted => simp
  | expanded _ hmem => simpa using List.all_eq_true.mp hexpansions _ hmem

/-- A word that folds to a single mark is that mark. -/
theorem eq_of_foldName_mark (hmark : isMark c = true) (h : (foldName w).toList = [c]) :
    w.toList = [c] := by
  have hpart : ∀ (before : List Char) (d : Char) (ds : List Char),
      (if d = 'Σ' then [Text.lowerSigma before ds] else Text.lowerChar d) ≠ [] := by
    intro before d ds
    split
    · simp
    · exact lowerChar_ne_nil d
  simp only [foldName, Text.lower, String.toList_ofList] at h
  cases hw : w.toList with
  | nil => simp [hw, Text.lowerFrom] at h
  | cons d ds =>
    rw [hw, Text.lowerFrom] at h
    rcases List.append_eq_singleton_iff.mp h with ⟨hnil, -⟩ | ⟨hone, hrest⟩
    · exact absurd hnil (hpart [] d ds)
    · have hds : ds = [] := by
        cases ds with
        | nil => rfl
        | cons e es => exact absurd (List.append_eq_nil_iff.mp hrest).1 (hpart [d] e es)
      rw [hds] at hone ⊢
      split at hone
      · have hsigma : ∀ before, isMark (Text.lowerSigma before []) = false := by
          intro before
          unfold Text.lowerSigma
          split <;> decide
        rw [← List.cons.inj hone |>.1, hsigma] at hmark
        cases hmark
      · have hmem : c ∈ Text.lowerChar d := by simp [hone]
        rw [eq_of_mem_lowerChar hmem hmark]

/-- No other word folds to the same as a word that is a single mark. -/
theorem eq_of_foldName_eq {v : String} (hmark : isMark c = true) (hv : v.toList = [c])
    (h : foldName v = foldName w) : w = v := by
  have hsigma : c ≠ 'Σ' := Ne.symm (ne_of_isMark (by decide) hmark)
  have hfold : (foldName v).toList = [c] := by
    simp [foldName, Text.lower, hv, Text.lowerFrom, hsigma, lowerChar_of_isMark hmark]
  rw [h] at hfold
  rw [← String.toList_inj, hv, eq_of_foldName_mark hmark hfold]

/-- A word is a name if its folded form does not begin with a mark. -/
theorem isName_of_foldName (h : (foldName w).toList.head?.any isMark = false) :
    isName w = true := by
  cases hw : w.toList with
  | nil =>
    have hempty : w = "" := by simpa using hw
    rw [hempty]
    decide
  | cons c cs =>
    cases hc : isMark c with
    | false => exact isName_of_head hw hc
    | true =>
      have hsigma : c ≠ 'Σ' := Ne.symm (ne_of_isMark (by decide) hc)
      simp [foldName, Text.lower, hw, Text.lowerFrom, hsigma, lowerChar_of_isMark hc, hc] at h

end Definition

/-! ## Registries -/

namespace Registry

variable {r : Registry}

/-- Whatever the registry knows could be the name of a definition. -/
def Named (r : Registry) : Prop :=
  ∀ name, r.contains name = true → Definition.isName name = true

theorem Named.register {name : String} {arity : Arity} {body : Body} (h : r.Named)
    (hname : (foldName name).toList.head?.any Definition.isMark = false) :
    (r.register name arity body).Named := by
  intro other hother
  rw [Registry.register, NameTable.contains, NameTable.get?_insert] at hother
  split at hother
  · next hfold =>
    rw [← hfold] at hname
    exact Definition.isName_of_foldName hname
  · exact h other hother

/-- What holds of the empty registry and survives the entries of the catalogues and of `TO` holds of
the registry of a new interpreter. -/
theorem standard_induction {P : Registry → Prop} (hempty : P {})
    (hprimitive : ∀ entry ∈ Primitive.catalogue, ∀ name ∈ entry.1, ∀ r : Registry, P r →
      P (r.register name entry.2.1 (.primitive entry.2.2)))
    (hdeferred : ∀ entry ∈ Deferred.catalogue, ∀ name ∈ entry.1, ∀ r : Registry, P r →
      P (r.register name entry.2.1 (.deferred entry.2.2)))
    (hto : ∀ r : Registry, P r → P (r.register "to" (.fixed 0) .definer)) : P standard := by
  refine hto _ (List.foldlRecOn _ _ ?_ fun _ hr entry hmem => ?_)
  · refine List.foldlRecOn _ _ hempty fun _ hr entry hmem => ?_
    exact List.foldlRecOn entry.1 _ hr fun r hr name hname => hprimitive entry hmem name hname r hr
  · exact List.foldlRecOn entry.1 _ hr fun r hr name hname => hdeferred entry hmem name hname r hr

theorem standard_named : standard.Named := by
  have hprimitive : ∀ entry ∈ Primitive.catalogue, ∀ name ∈ entry.1,
      (foldName name).toList.head?.any Definition.isMark = false := by decide +kernel
  have hdeferred : ∀ entry ∈ Deferred.catalogue, ∀ name ∈ entry.1,
      (foldName name).toList.head?.any Definition.isMark = false := by decide +kernel
  refine standard_induction ?_ (fun entry hmem name hname r hr => ?_)
    (fun entry hmem name hname r hr => ?_) fun r hr => hr.register (by decide)
  · intro name hname
    simp [NameTable.contains, NameTable.get?] at hname
  · exact hr.register (hprimitive entry hmem name hname)
  · exact hr.register (hdeferred entry hmem name hname)

end Registry

end TurtleLogo
