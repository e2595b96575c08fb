import HourlyPrices.Component
import Mathlib.Data.List.Basic
import Mathlib.Data.List.Nodup
import Mathlib.Data.List.Forall2

/-!
# Names of components

A text selects components by their names between commas, without regard to case and to blanks
around them; a blank text selects them all (`Component.selected`). Nothing is selected when one of
the names is unknown (`Component.selection_eq_ok`, `Component.selection_eq_error`).
-/

namespace HourlyPrices

namespace Text

/-- Two characters that differ at most in case. Characters outside of ASCII are not told apart. -/
def SameLetter (a b : Char) : Prop := lowerAscii a = lowerAscii b ∨ 128 ≤ a.toNat ∧ 128 ≤ b.toNat

theorem SameLetter.symm {a b : Char} (h : SameLetter a b) : SameLetter b a :=
  h.imp Eq.symm And.symm

theorem lowerAscii_of_not_ascii {c : Char} (h : 128 ≤ c.toNat) : lowerAscii c = c := by
  unfold lowerAscii
  rw [if_neg]
  rintro ⟨-, hz⟩
  have : c.toNat ≤ 90 := hz
  omega

/-- A word of ASCII letters is not changed to another by changes of case. -/
theorem map_lowerAscii_eq {cs ds w : List Char} (h : cs.Forall₂ SameLetter ds)
    (hw : ∀ c ∈ w, c.toNat < 128) (hcs : cs.map lowerAscii = w) : ds.map lowerAscii = w := by
  induction h generalizing w with
  | nil => exact hcs
  | @cons a b as bs hab _ ih =>
    subst hcs
    obtain ⟨ha, has⟩ := List.forall_mem_cons.1 hw
    rw [List.map_cons, ih has rfl, List.map_cons]
    obtain hab | ⟨hout, -⟩ := hab
    · rw [hab]
    · rw [lowerAscii_of_not_ascii hout] at ha
      omega

end Text

namespace Component

open Text

/-- A text is the name of a component, but for the case of letters and for blanks around it. -/
def Names (n : String) (k : Component) : Prop :=
  (trimChars n.toList).map lowerAscii = k.name.toList

instance (n : String) (k : Component) : Decidable (Names n k) :=
  inferInstanceAs (Decidable (_ = _))

/-- Two names that differ at most in case and in blanks around them. -/
def SameName (m n : String) : Prop := (trimChars m.toList).Forall₂ SameLetter (trimChars n.toList)

/-- Each part of a text between commas is the name of a component, or the text is blank. -/
def Understood (names : String) : Prop :=
  isBlankText names ∨ ∀ n ∈ names.splitOn ",", ∃ k, Names n k

/-- The components whose names occur between the commas of a text; all of them if it is blank. -/
def selected (names : String) : List Component :=
  all.filter fun k => isBlankText names ∨ ∃ n ∈ names.splitOn ",", Names n k

variable {m n names names' : String} {k l : Component} {ns : List String}

theorem name_injective (h : k.name = l.name) : k = l := by
  cases k <;> cases l <;> first | rfl | exact absurd h (by decide)

theorem name_ascii (k : Component) : ∀ c ∈ k.name.toList, c.toNat < 128 := by
  have hall : k.name.toList.all (·.toNat < 128) := by cases k <;> rfl
  exact fun c hc => of_decide_eq_true (List.all_eq_true.1 hall c hc)

theorem Names.unique (hk : Names n k) (hl : Names n l) : k = l :=
  name_injective (String.toList_inj.1 (hk.symm.trans hl))

theorem SameName.symm (h : SameName m n) : SameName n m :=
  List.Forall₂.flip (h.imp fun _ _ => SameLetter.symm)

theorem Names.of_sameName (h : SameName m n) (hm : Names m k) : Names n k :=
  map_lowerAscii_eq h k.name_ascii hm

theorem ofName_eq_ok (h : Names n k) : ofName n = .ok k := by
  unfold ofName
  dsimp only
  split
  · rename_i l hl
    have hfound := List.find?_some hl
    have hname : Names n l := (eq_of_beq hfound).symm
    rw [hname.unique h]
  · rename_i hnone
    have hk := List.find?_eq_none.1 hnone k (mem_all k)
    exact absurd h.symm (by simpa using hk)

theorem ofName_eq_error (h : ∀ k, ¬ Names n k) :
    ofName n = .error (.unknownElement n acceptedNames) := by
  unfold ofName
  dsimp only
  split
  · rename_i l hl
    have hfound := List.find?_some hl
    have hname : Names n l := (eq_of_beq hfound).symm
    exact absurd hname (h l)
  · rfl

/-! ## Several names -/

theorem mapM_ofName_eq_ok (h : ∀ n ∈ ns, ∃ k, Names n k) :
    ∃ ks, ns.mapM ofName = .ok ks ∧ ∀ k, k ∈ ks ↔ ∃ n ∈ ns, Names n k := by
  induction ns with
  | nil => exact ⟨[], rfl, by simp⟩
  | cons n ns ih =>
    obtain ⟨⟨k, hk⟩, hns⟩ := List.forall_mem_cons.1 h
    obtain ⟨ks, hks, hmem⟩ := ih hns
    refine ⟨k :: ks, ?_, fun l => ?_⟩
    · rw [List.mapM_cons, ofName_eq_ok hk, hks]
      rfl
    · rw [List.mem_cons, hmem, List.exists_mem_cons_iff]
      exact or_congr ⟨fun hl => hl ▸ hk, fun hl => hl.unique hk⟩ Iff.rfl

/-- Of several unknown names one is reported. -/
theorem mapM_ofName_eq_error (h : ∃ n ∈ ns, ∀ k, ¬ Names n k) :
    ∃ n, ns.mapM ofName = .error (.unknownElement n acceptedNames) := by
  induction ns with
  | nil => simp at h
  | cons n ns ih =>
    rw [List.mapM_cons]
    by_cases hn : ∃ k, Names n k
    · obtain ⟨k, hk⟩ := hn
      obtain ⟨m, hm, hunknown⟩ := h
      obtain rfl | hm := List.mem_cons.1 hm
      · exact absurd hk (hunknown k)
      · obtain ⟨m', he⟩ := ih ⟨m, hm, hunknown⟩
        rw [ofName_eq_ok hk, he]
        exact ⟨m', rfl⟩
    · rw [ofName_eq_error (not_exists.1 hn)]
      exact ⟨n, rfl⟩

theorem selection_eq_ok (hblank : ¬ isBlankText names) (h : Understood names) :
    selection names = .ok (selected names) := by
  obtain ⟨ks, hks, hmem⟩ := mapM_ofName_eq_ok (h.resolve_left hblank)
  rw [selection, hks]
  change Except.ok (all.filter (· ∈ ks)) = _
  simp only [hmem, selected, hblank, Bool.false_eq_true, false_or]

theorem selection_eq_error (h : ¬ Understood names) :
    ∃ n, selection names = .error (.unknownElement n acceptedNames) := by
  simp only [Understood, not_or, not_forall, not_exists] at h
  obtain ⟨-, n, hn, hunknown⟩ := h
  obtain ⟨m, he⟩ := mapM_ofName_eq_error ⟨n, hn, hunknown⟩
  exact ⟨m, by rw [selection, he]; rfl⟩

theorem selected_of_isBlankText (h : isBlankText names) : selected names = all := by
  simp [selected, h]

theorem nodup_selected (names : String) : (selected names).Nodup :=
  List.Nodup.filter _ (by decide)

/-- Two texts with the same names between their commas, in whatever order and however often they
occur. A blank text has no names. -/
structure SameNames (names names' : String) : Prop where
  blank : isBlankText names = isBlankText names'
  left : ∀ m ∈ names.splitOn ",", ∃ n ∈ names'.splitOn ",", SameName m n
  right : ∀ n ∈ names'.splitOn ",", ∃ m ∈ names.splitOn ",", SameName n m

namespace SameNames

theorem symm (h : SameNames names names') : SameNames names' names :=
  ⟨h.blank.symm, h.right, h.left⟩

theorem exists_names (h : SameNames names names') (hk : ∃ m ∈ names.splitOn ",", Names m k) :
    ∃ n ∈ names'.splitOn ",", Names n k := by
  obtain ⟨m, hm, hk⟩ := hk
  obtain ⟨n, hn, hsame⟩ := h.left m hm
  exact ⟨n, hn, hk.of_sameName hsame⟩

theorem understood (h : SameNames names names') (hu : Understood names) : Understood names' := by
  refine hu.imp (fun hblank => h.blank ▸ hblank) fun hall n hn => ?_
  obtain ⟨m, hm, hsame⟩ := h.right n hn
  obtain ⟨k, hk⟩ := hall m hm
  exact ⟨k, hk.of_sameName hsame.symm⟩

/-- Texts with the same names select the same components. -/
theorem selected_eq (h : SameNames names names') : selected names = selected names' := by
  have hmem : ∀ k, (∃ m ∈ names.splitOn ",", Names m k) ↔ ∃ n ∈ names'.splitOn ",", Names n k :=
    fun k => ⟨h.exists_names, h.symm.exists_names⟩
  simp only [selected, h.blank, hmem]

end SameNames

end Component

end HourlyPrices
