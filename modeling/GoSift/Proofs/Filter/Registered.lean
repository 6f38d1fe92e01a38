import GoSift.Filter.Registry

/-! Registries as they are filled: with natives, methods and compiled functions, one after the other. -/
namespace GoSift.Filter

namespace Registry

/-- A registry that was filled from an empty one. -/
inductive Built : Registry → Prop
  | empty : Built empty
  | native {r : Registry} (h : Built r) (qualifier name : String) (sig : Signature)
      (run : Stack → Stack) : Built (r.addNative qualifier name sig run).1
  | method {r : Registry} (h : Built r) (type name : String) (sig : Signature)
      (run : Stack → Stack) : Built (r.addMethod type name sig run).1
  | func {r : Registry} (h : Built r) (qualifier : String) (f : Func) :
      Built (r.addFunc qualifier f).1

end Registry

theorem Table.size_add_le {α : Type} {t : Table α} (h : t.size ≤ capacity) (key : Key) (a : α) :
    (t.add key a).1.size ≤ capacity := by
  unfold Table.add
  split
  · simpa [size] using h
  · split
    · next hlt =>
      simp only [size, Array.size_push]
      omega
    · exact h

namespace Table

variable {α : Type} {t : Table α} {key : Key} {a : α} {id : Nat}

theorem add_of_known (h : t.ids[key]? = some id) :
    t.add key a = ({ t with entries := t.entries.setIfInBounds id a }, some id) := by
  rw [add, h]

theorem add_of_new (h : t.ids[key]? = none) (hid : (t.add key a).2 = some id) :
    id = t.size ∧ t.add key a =
      ({ entries := t.entries.push a, ids := t.ids.insert key t.size }, some t.size) := by
  simp only [add, h] at hid ⊢
  split at hid
  · next hlt =>
    cases hid
    rw [if_pos hlt]
    exact ⟨rfl, rfl⟩
  · cases hid

theorem add_eq_self (h : t.ids[key]? = none) (hid : (t.add key a).2 = none) :
    (t.add key a).1 = t := by
  simp only [add, h] at hid ⊢
  split at hid
  · cases hid
  · next hlt => rw [if_neg hlt]

theorem lookup?_eq_some_iff :
    t.lookup? key = some (id, a) ↔ t.ids[key]? = some id ∧ t.get? id = some a := by
  simp only [lookup?, get?, Option.bind_eq_some_iff, Option.map_eq_some_iff, Prod.mk.injEq]
  constructor
  · rintro ⟨_, hid, _, ha, rfl, rfl⟩
    exact ⟨hid, ha⟩
  · rintro ⟨hid, ha⟩
    exact ⟨id, hid, a, ha, rfl, rfl⟩

/-- Keys have numbers of their own, which are in use. -/
structure Indexed (t : Table α) : Prop where
  lt : ∀ {key : Key} {id : Nat}, t.ids[key]? = some id → id < t.size
  inj : ∀ {key key' : Key} {id : Nat}, t.ids[key]? = some id → t.ids[key']? = some id → key = key'

theorem indexed_empty : Indexed ({} : Table α) := by
  have hids : ∀ key : Key, ({} : Table α).ids[key]? = none := fun _ => Std.HashMap.getElem?_empty
  constructor <;> intros <;> simp_all

/-- What is added is found under its key, and under all others what was there. -/
theorem Indexed.add (h : t.Indexed) (key : Key) (a : α) :
    (t.add key a).1.Indexed ∧ ∀ {key' : Key} {id : Nat} {b : α},
      (t.add key a).1.lookup? key' = some (id, b) →
        key' = key ∧ b = a ∨ t.lookup? key' = some (id, b) := by
  cases hid : t.ids[key]? with
  | some i =>
    rw [add_of_known hid]
    refine ⟨⟨fun hk => by simpa [size] using h.lt hk, h.inj⟩, fun {key' id b} hb => ?_⟩
    obtain ⟨hkey, hget⟩ := lookup?_eq_some_iff.mp hb
    rw [get?, Array.getElem?_setIfInBounds] at hget
    by_cases he : i = id
    · subst he
      have hlt : i < t.entries.size := h.lt hid
      rw [if_pos rfl, if_pos hlt] at hget
      cases hget
      exact Or.inl ⟨h.inj hkey hid, rfl⟩
    · rw [if_neg he] at hget
      exact Or.inr (lookup?_eq_some_iff.mpr ⟨hkey, hget⟩)
  | none =>
    cases hnew : (t.add key a).2 with
    | none =>
      rw [add_eq_self hid hnew]
      exact ⟨h, Or.inr⟩
    | some i =>
      obtain ⟨-, hadd⟩ := add_of_new hid hnew
      have hids : ∀ key' : Key, (t.ids.insert key t.size)[key']? =
          if key = key' then some t.size else t.ids[key']? := by
        intro key'
        simp [Std.HashMap.getElem?_insert]
      rw [hadd]
      refine ⟨⟨fun {key' id} hk => ?_, fun {k k' id} hk hk' => ?_⟩, fun {key' id b} hb => ?_⟩
      · rw [hids] at hk
        simp only [size, Array.size_push]
        split at hk
        · cases hk
          exact Nat.lt_succ_self _
        · exact Nat.lt_succ_of_lt (h.lt hk)
      · rw [hids] at hk hk'
        split at hk <;> split at hk'
        · next he he' => rw [← he, ← he']
        · cases hk
          exact (Nat.lt_irrefl _ (h.lt hk')).elim
        · cases hk'
          exact (Nat.lt_irrefl _ (h.lt hk)).elim
        · exact h.inj hk hk'
      · obtain ⟨hkey, hget⟩ := lookup?_eq_some_iff.mp hb
        rw [hids] at hkey
        rw [get?, Array.getElem?_push] at hget
        split at hkey
        · next he =>
          cases hkey
          rw [if_pos (by rfl)] at hget
          cases hget
          exact Or.inl ⟨he.symm, rfl⟩
        · have hlt : id < t.entries.size := h.lt hkey
          rw [if_neg (Nat.ne_of_lt hlt)] at hget
          exact Or.inr (lookup?_eq_some_iff.mpr ⟨hkey, hget⟩)

/-- An entry of a table to which something was added is that or was there. -/
theorem get?_add {b : α} (h : (t.add key a).1.get? id = some b) : b = a ∨ t.get? id = some b := by
  cases hid : t.ids[key]? with
  | some i =>
    rw [add_of_known hid] at h
    simp only [get?, Array.getElem?_setIfInBounds] at h
    split at h
    · split at h
      · cases h
        exact Or.inl rfl
      · cases h
    · exact Or.inr h
  | none =>
    cases hnew : (t.add key a).2 with
    | none =>
      rw [add_eq_self hid hnew] at h
      exact Or.inr h
    | some i =>
      rw [(add_of_new hid hnew).2] at h
      simp only [get?, Array.getElem?_push] at h
      split at h
      · cases h
        exact Or.inl rfl
      · exact Or.inr h

end Table

/-- No table ever holds more functions than two bytes can number. -/
theorem Registry.Built.size_le {r : Registry} (h : r.Built) :
    r.natives.size ≤ Table.capacity ∧ r.funcs.size ≤ Table.capacity := by
  induction h with
  | empty => exact ⟨Nat.zero_le _, Nat.zero_le _⟩
  | native _ _ _ _ _ ih => exact ⟨Table.size_add_le ih.1 _ _, ih.2⟩
  | method _ _ _ _ _ ih => exact ⟨Table.size_add_le ih.1 _ _, ih.2⟩
  | func _ _ _ ih => exact ⟨ih.1, Table.size_add_le ih.2 _ _⟩

end GoSift.Filter
