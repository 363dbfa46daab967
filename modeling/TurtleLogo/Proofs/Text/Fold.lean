import TurtleLogo.NameTable

set_option autoImplicit false

/-! # Folding and ASCII

Names are folded by the full Unicode mapping to lower case, but a few names are also compared up to
the case of ASCII letters only. The two agree on names of ASCII letters without a `k`: no character
above ASCII has a lower-case form of such letters (`lt_of_lowerChar`), while the Kelvin sign is
folded to `k`. -/

namespace TurtleLogo.Text

variable {c : Char} {cs before : List Char}

/-! ## Lower-case forms -/

/-- A character made from a code point has it, or is the null character. -/
theorem toNat_ofNat (n : Nat) : (Char.ofNat n).toNat = n ∨ (Char.ofNat n).toNat = 0 := by
  by_cases hvalid : n.isValidChar
  · have hchar : Char.ofNat n = Char.ofNatAux n hvalid := dif_pos hvalid
    exact Or.inl (by rw [hchar]; rfl)
  · have hchar : Char.ofNat n = '\x00' := dif_neg hvalid
    exact Or.inr (by rw [hchar]; rfl)

/-- What the lower-case form of a character can be. -/
inductive LowersTo (c : Char) : List Char → Prop
  | ascii : c.toNat < 0x80 → LowersTo c [c.toLower]
  | same : 0x80 ≤ c.toNat → LowersTo c [c]
  | expanded {points : List Nat} : 0x80 ≤ c.toNat → (c.toNat, points) ∈ lowerExpansions →
      LowersTo c (points.map Char.ofNat)
  | shifted {run : CaseRun} {n : Nat} : 0x80 ≤ c.toNat → run ∈ lowerRuns → run.first ≤ c.toNat →
      c.toNat ≤ run.last → (n : Int) = c.toNat + run.shift → LowersTo c [Char.ofNat n]

theorem lowersTo (c : Char) : LowersTo c (lowerChar c) := by
  unfold lowerChar
  split
  · next hascii => exact .ascii hascii
  · next hascii =>
    have habove : 0x80 ≤ c.toNat := Nat.le_of_not_lt hascii
    unfold convert
    split
    · next points hlookup =>
      obtain ⟨_, _, hlist, -⟩ := List.lookup_eq_some_iff.mp hlookup
      exact .expanded habove (by simp [hlist])
    · cases hshift : shiftBy lowerRuns c.toNat with
      | none => exact .same habove
      | some shifted =>
        obtain ⟨run, hrun, rfl⟩ := Option.map_eq_some_iff.mp hshift
        have hmem := List.mem_of_find?_eq_some hrun
        have hcovers := List.find?_some hrun
        simp only [CaseRun.covers, Bool.and_eq_true, decide_eq_true_eq] at hcovers
        have hpositive :
            lowerRuns.all (fun r => decide (0 ≤ (r.first : Int) + r.shift)) = true := by decide
        have hle : 0 ≤ (run.first : Int) + run.shift := by
          simpa using List.all_eq_true.mp hpositive run hmem
        exact .shifted habove hmem hcovers.1.1 hcovers.1.2 (Int.toNat_of_nonneg (by omega))

/-! ## ASCII letters -/

/-- Whether the character is the lower-case form of ASCII letters only. The Kelvin sign has the
lower-case form `k`. -/
def isAsciiFold (c : Char) : Bool :=
  0x61 ≤ c.toNat && c.toNat ≤ 0x7A && c.toNat != 0x6B

theorem isAsciiFold_iff :
    isAsciiFold c = true ↔ 0x61 ≤ c.toNat ∧ c.toNat ≤ 0x7A ∧ c.toNat ≠ 0x6B := by
  simp [isAsciiFold, and_assoc]

/-- Above ASCII, no character is folded to such letters. -/
theorem lt_of_lowerChar (h : ∀ d ∈ lowerChar c, isAsciiFold d = true) : c.toNat < 0x80 := by
  have hexpansions : lowerExpansions.all (fun e => e.2.any fun n => decide (0x80 ≤ n)) = true := by
    decide
  have hruns : lowerRuns.all (fun r => decide (0x80 ≤ (r.first : Int) + r.shift) ||
      (r.first == r.last && decide ((r.first : Int) + r.shift = 0x6B))) = true := by decide
  have hlowers := lowersTo c
  generalize lowerChar c = lower at h hlowers
  cases hlowers with
  | ascii hascii => exact hascii
  | same habove =>
    have hc := isAsciiFold_iff.mp (h c List.mem_cons_self)
    omega
  | @expanded points habove hmem =>
    obtain ⟨n, hn, hle⟩ := List.any_eq_true.mp (List.all_eq_true.mp hexpansions _ hmem)
    have hfold := isAsciiFold_iff.mp (h _ (List.mem_map_of_mem hn))
    have hle' : 0x80 ≤ n := of_decide_eq_true hle
    rcases toNat_ofNat n with heq | heq <;> omega
  | @shifted run n habove hmem hfirst hlast hn =>
    have hfold := isAsciiFold_iff.mp (h _ List.mem_cons_self)
    have hrun := List.all_eq_true.mp hruns run hmem
    simp only [Bool.or_eq_true, Bool.and_eq_true, beq_iff_eq, decide_eq_true_eq] at hrun
    rcases toNat_ofNat n with heq | heq <;> omega

theorem lowerChar_of_lt (h : c.toNat < 0x80) : lowerChar c = [c.toLower] :=
  if_pos h

theorem lt_of_isAsciiFold_toLower (h : isAsciiFold c.toLower = true) : c.toNat < 0x80 := by
  have hfold := isAsciiFold_iff.mp h
  by_cases hupper : c.val ≥ 'A'.val ∧ c.val ≤ 'Z'.val
  · have hhigh : c.toNat ≤ 90 := UInt32.le_iff_toNat_le.mp hupper.2
    omega
  · have hsame : c.toLower = c := dif_neg hupper
    rw [hsame] at hfold
    omega

theorem lowerFrom_of_ascii (h : ∀ c ∈ cs, c.toNat < 0x80) (before : List Char) :
    lowerFrom before cs = cs.map Char.toLower := by
  induction cs generalizing before with
  | nil => rfl
  | cons c cs ih =>
    obtain ⟨hc, hcs⟩ := List.forall_mem_cons.mp h
    have hsigma : c ≠ 'Σ' := by
      rintro rfl
      exact absurd hc (by decide)
    rw [lowerFrom, if_neg hsigma, lowerChar_of_lt hc, ih hcs]
    rfl

theorem ascii_of_lowerFrom (h : ∀ d ∈ lowerFrom before cs, isAsciiFold d = true) :
    ∀ c ∈ cs, c.toNat < 0x80 := by
  induction cs generalizing before with
  | nil => simp
  | cons c cs ih =>
    rw [lowerFrom, List.forall_mem_append] at h
    refine List.forall_mem_cons.mpr ⟨?_, ih h.2⟩
    by_cases hsigma : c = 'Σ'
    · have hfold := h.1
      rw [if_pos hsigma] at hfold
      have hletter := hfold _ List.mem_cons_self
      unfold lowerSigma at hletter
      split at hletter <;> exact absurd hletter (by decide)
    · have hfold := h.1
      rw [if_neg hsigma] at hfold
      exact lt_of_lowerChar hfold

/-- A name of such letters is folded like another exactly if the two agree up to the case of ASCII
letters. -/
theorem foldName_eq_iff {known : String} (hknown : ∀ c ∈ known.toList, isAsciiFold c.toLower = true)
    (name : String) : foldName name = foldName known ↔ sameAscii known name = true := by
  have hfold : lowerFrom [] known.toList = known.toList.map Char.toLower :=
    lowerFrom_of_ascii (fun c hc => lt_of_isAsciiFold_toLower (hknown c hc)) []
  have hletters : ∀ d ∈ known.toList.map Char.toLower, isAsciiFold d = true := by
    simpa using hknown
  rw [foldName, foldName, lower, lower, hfold, sameAscii, beq_iff_eq, String.ofList_inj]
  constructor
  · intro h
    have hascii := ascii_of_lowerFrom (h ▸ hletters)
    rw [← h, lowerFrom_of_ascii hascii]
  · intro h
    have hascii : ∀ c ∈ name.toList, c.toNat < 0x80 := by
      intro c hc
      refine lt_of_isAsciiFold_toLower (hletters _ ?_)
      rw [h]
      exact List.mem_map_of_mem hc
    rw [lowerFrom_of_ascii hascii, h]

end TurtleLogo.Text
