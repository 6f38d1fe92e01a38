import GoSift.Rule.Report
import Mathlib.Data.Prod.Lex
import Mathlib.Data.String.Basic

/-!
The order of reports. Arranging them sorts by place and rule without changing the order of reports that
are equal in both, and then keeps the first of these. A list so arranged is determined by what it holds
for each place and rule.
-/
namespace GoSift

namespace Report

/-- Places and rules in the order of lines, columns and names. -/
abbrev Key : Type :=
  ℕ ×ₗ ℕ ×ₗ String

def keyAt (pos : Position) (rule : String) : Key :=
  toLex (pos.line, toLex (pos.column, rule))

/-- What a report is ordered by. -/
def key (a : Report) : Key :=
  keyAt ⟨a.line, a.column⟩ a.rule

/-- The rule of a key. -/
def Key.rule (k : Key) : String :=
  (ofLex (ofLex k).2).2

/-- The reports of one place and rule. -/
def withKey (k : Key) (rs : List Report) : List Report :=
  rs.filter (·.key = k)

section

variable {a b : Report}

theorem keyAt_eq_iff {p q : Position} {name name' : String} :
    keyAt p name = keyAt q name' ↔ p = q ∧ name = name' := by
  cases p
  cases q
  simp [keyAt, and_assoc]

theorem le_iff_key : a.le b = true ↔ a.key ≤ b.key := by
  simp only [key, keyAt, Prod.Lex.toLex_le_toLex, le]
  split
  · simp only [decide_eq_true_eq]
    omega
  · next hline =>
    simp only [ne_eq, Decidable.not_not] at hline
    split
    · next hcolumn =>
      simp only [decide_eq_true_eq, hline, lt_irrefl, true_and, false_or, hcolumn, false_and,
        or_false]
    · next hcolumn =>
      simp only [ne_eq, Decidable.not_not] at hcolumn
      simp [hline, hcolumn]

theorem sameKey_iff : a.sameKey b = true ↔ a.key = b.key := by
  simp [sameKey, key, keyAt_eq_iff]

theorem le_of_le_of_le (a b c : Report) (hab : a.le b = true) (hbc : b.le c = true) :
    a.le c = true := by
  rw [le_iff_key] at hab hbc ⊢
  exact hab.trans hbc

theorem le_or_le (a b : Report) : (a.le b || b.le a) = true := by
  rw [Bool.or_eq_true, le_iff_key, le_iff_key]
  exact le_total a.key b.key

theorem mem_withKey {k : Key} {rs : List Report} :
    a ∈ withKey k rs ↔ a ∈ rs ∧ a.key = k := by
  simp [withKey]

end

theorem pairwise_mergeSort (rs : List Report) : (rs.mergeSort le).Pairwise (·.key ≤ ·.key) := by
  simpa only [le_iff_key] using List.pairwise_mergeSort le_of_le_of_le le_or_le rs

/-- Sorting leaves the reports of one place and rule in their order. -/
theorem withKey_mergeSort (k : Key) (rs : List Report) :
    withKey k (rs.mergeSort le) = withKey k rs := by
  have hequal : (withKey k rs).Pairwise fun a b => a.le b = true := by
    apply List.pairwise_of_forall_mem_list
    intro a ha b hb
    rw [mem_withKey] at ha hb
    rw [le_iff_key, ha.2, hb.2]
  have hsub : (withKey k rs).Sublist (rs.mergeSort le) :=
    List.sublist_mergeSort le_of_le_of_le le_or_le hequal List.filter_sublist
  have hself : withKey k (withKey k rs) = withKey k rs := by simp [withKey]
  have hfilter : (withKey k rs).Sublist (withKey k (rs.mergeSort le)) := hself ▸ hsub.filter _
  have hlength := ((List.mergeSort_perm rs le).filter (·.key = k)).length_eq
  exact (hfilter.eq_of_length hlength.symm).symm

/-- Of sorted reports behind a kept one, those stay that begin a new key. -/
theorem pairwise_go {a : Report} {rs : List Report} (h : (a :: rs).Pairwise (·.key ≤ ·.key)) :
    (a :: dropRepeats.go a rs).Pairwise (·.key < ·.key) := by
  induction rs generalizing a with
  | nil => simp [dropRepeats.go]
  | cons b rs ih =>
    obtain ⟨ha, hrest⟩ := List.pairwise_cons.mp h
    obtain ⟨hab, ha⟩ := List.forall_mem_cons.mp ha
    rw [dropRepeats.go]
    split
    · exact ih (List.pairwise_cons.mpr ⟨ha, (List.pairwise_cons.mp hrest).2⟩)
    · next hne =>
      rw [sameKey_iff] at hne
      have hlt : a.key < b.key := lt_of_le_of_ne hab hne
      have hkept := ih hrest
      refine List.pairwise_cons.mpr ⟨?_, hkept⟩
      rw [List.forall_mem_cons]
      exact ⟨hlt, fun c hc => hlt.trans ((List.pairwise_cons.mp hkept).1 c hc)⟩

theorem withKey_go {a : Report} {rs : List Report} (h : (a :: rs).Pairwise (·.key ≤ ·.key))
    (k : Key) :
    withKey k (a :: dropRepeats.go a rs) = ((a :: rs).find? (·.key = k)).toList := by
  induction rs generalizing a with
  | nil => by_cases hk : a.key = k <;> simp [withKey, dropRepeats.go, hk]
  | cons b rs ih =>
    obtain ⟨ha, hrest⟩ := List.pairwise_cons.mp h
    rw [dropRepeats.go]
    split
    · next hsame =>
      rw [sameKey_iff] at hsame
      rw [ih (List.pairwise_cons.mpr
        ⟨fun c hc => ha c (List.mem_cons_of_mem b hc), (List.pairwise_cons.mp hrest).2⟩)]
      by_cases hk : a.key = k
      · simp [hk]
      · simp [hk, ← hsame]
    · next hne =>
      by_cases hk : a.key = k
      · have hnone : withKey k (b :: dropRepeats.go b rs) = [] := by
          apply List.filter_eq_nil_iff.mpr
          intro c hc
          have hlt := (List.pairwise_cons.mp (pairwise_go h)).1 c (by rwa [dropRepeats.go, if_neg hne])
          simpa [← hk] using hlt.ne'
        rw [withKey, List.filter_cons_of_pos (by simpa using hk), ← withKey, hnone]
        simp [hk]
      · rw [withKey, List.filter_cons_of_neg (by simpa using hk), ← withKey, ih hrest]
        simp [hk]

theorem pairwise_arrange (rs : List Report) : (arrange rs).Pairwise (·.key < ·.key) := by
  have hsorted := pairwise_mergeSort rs
  unfold arrange
  cases hrs : rs.mergeSort le with
  | nil => exact List.Pairwise.nil
  | cons a sorted => exact pairwise_go (hrs ▸ hsorted)

/-- Of the reports of one place and rule the first is kept. -/
theorem withKey_arrange (k : Key) (rs : List Report) :
    withKey k (arrange rs) = (rs.find? (·.key = k)).toList := by
  have hsorted := pairwise_mergeSort rs
  have hfirst : (rs.mergeSort le).find? (·.key = k) = rs.find? (·.key = k) := by
    rw [← List.head?_filter, ← List.head?_filter]
    exact congrArg List.head? (withKey_mergeSort k rs)
  rw [← hfirst]
  unfold arrange
  cases hrs : rs.mergeSort le with
  | nil => rfl
  | cons a sorted => exact withKey_go (hrs ▸ hsorted) k

/-- Two lists without repeated keys are equal if they hold the same for each place and rule. -/
theorem eq_of_withKey_eq {rs rs' : List Report} (h : rs.Pairwise (·.key < ·.key))
    (h' : rs'.Pairwise (·.key < ·.key)) (heq : ∀ k, withKey k rs = withKey k rs') : rs = rs' := by
  have hmem : ∀ a, a ∈ rs ↔ a ∈ rs' := by
    intro a
    have hself := @mem_withKey a a.key
    have ha := @hself rs
    rw [heq, hself] at ha
    simpa using ha.symm
  have hnodup : ∀ {xs : List Report}, xs.Pairwise (·.key < ·.key) → xs.Nodup :=
    fun hxs => hxs.imp fun hlt he => hlt.ne (congrArg key he)
  refine ((List.perm_ext_iff_of_nodup (hnodup h) (hnodup h')).mpr hmem).eq_of_pairwise ?_ h h'
  intro a b _ _ hab hba
  exact (lt_asymm hab hba).elim

theorem mem_of_mem_arrange {a : Report} {rs : List Report} (h : a ∈ arrange rs) : a ∈ rs := by
  have hkey : a ∈ withKey a.key (arrange rs) := mem_withKey.mpr ⟨h, rfl⟩
  rw [withKey_arrange] at hkey
  exact List.mem_of_find?_eq_some (Option.mem_toList.mp hkey)

section

variable {rs rs' : List Report} {k : Key} {name : String}

theorem withKey_filter_rule (h : k.rule = name) :
    withKey k (rs.filter (·.rule = name)) = withKey k rs := by
  rw [withKey, withKey, List.filter_filter]
  apply List.filter_congr
  intro a _
  have hrule : a.key = k → a.rule = name := by
    rintro rfl
    exact h
  simpa using hrule

theorem withKey_filter_rule_ne (h : k.rule ≠ name) : withKey k (rs.filter (·.rule = name)) = [] := by
  apply List.filter_eq_nil_iff.mpr
  intro a ha hk
  have hrule : a.rule = name := by simpa using (List.mem_filter.mp ha).2
  have hkey : a.key = k := by simpa using hk
  subst hkey
  exact h hrule

/-- The reports of one rule can be arranged before or behind choosing them. -/
theorem arrange_filter_rule (name : String) (rs : List Report) :
    arrange (rs.filter (·.rule = name)) = (arrange rs).filter (·.rule = name) := by
  apply eq_of_withKey_eq (pairwise_arrange _) ((pairwise_arrange rs).filter _)
  intro k
  rw [withKey_arrange, ← List.head?_filter]
  change (withKey k (rs.filter (·.rule = name))).head?.toList = _
  by_cases hk : k.rule = name
  · rw [withKey_filter_rule hk, withKey_filter_rule hk, withKey_arrange, ← List.head?_filter]
    rfl
  · rw [withKey_filter_rule_ne hk, withKey_filter_rule_ne hk]
    rfl

/-- Two lists without repeated keys are equal if they hold the same for each rule. -/
theorem eq_of_filter_rule_eq (h : rs.Pairwise (·.key < ·.key)) (h' : rs'.Pairwise (·.key < ·.key))
    (heq : ∀ name, rs.filter (·.rule = name) = rs'.filter (·.rule = name)) : rs = rs' := by
  apply eq_of_withKey_eq h h'
  intro k
  have hrs := @withKey_filter_rule rs k k.rule rfl
  have hrs' := @withKey_filter_rule rs' k k.rule rfl
  rw [← hrs, ← hrs', heq]

end

end Report
end GoSift
