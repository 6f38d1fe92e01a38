import GoSift.Proofs.Filter.Declared

/-!
What a registry knows is what its log of requests says. A key has the number that the first request for
it was answered with, and the function of the last one; a request is refused only if its key is new and
the table is full.
-/
namespace GoSift.Filter

/-- A request for a place in a table, and the number it was answered with. -/
structure Attempt (α : Type) where
  key : Key
  entry : α
  answer : Option Nat

namespace Attempt

variable {α : Type}

/-- The requests for a key that were answered with a number, in order. -/
def granted (log : List (Attempt α)) (key : Key) : List (Attempt α) :=
  log.filter fun a => a.key = key && a.answer.isSome

/-- What a log says about a key: the number of the first request that was granted, and the function of
the last one. -/
def known? (log : List (Attempt α)) (key : Key) : Option (Nat × α) :=
  match (granted log key).head?, (granted log key).getLast? with
  | some first, some last => first.answer.map fun id => (id, last.entry)
  | _, _ => none

variable {log : List (Attempt α)} {key key' : Key} {a : α} {id : Nat}

theorem granted_refused : granted (log ++ [⟨key, a, none⟩]) key' = granted log key' := by
  simp [granted]

theorem granted_other (h : key ≠ key') (answer : Option Nat) :
    granted (log ++ [⟨key, a, answer⟩]) key' = granted log key' := by
  simp [granted, h]

theorem granted_self :
    granted (log ++ [⟨key, a, some id⟩]) key = granted log key ++ [⟨key, a, some id⟩] := by
  simp [granted]

theorem mem_granted {b : Attempt α} :
    b ∈ granted log key ↔ b ∈ log ∧ b.key = key ∧ b.answer.isSome := by
  simp [granted]

/-- Nothing is known about a key exactly if no request for it was granted. -/
theorem known?_eq_none : known? log key = none ↔ granted log key = [] := by
  unfold known?
  cases hg : granted log key with
  | nil => simp
  | cons first rest =>
    have hfirst : first.answer.isSome := (mem_granted.mp (hg ▸ List.mem_cons_self)).2.2
    obtain ⟨id, hid⟩ := Option.isSome_iff_exists.mp hfirst
    simp [List.getLast?_cons, hid]

/-- A granted request gives a new key its number, and every key its function. -/
theorem known?_self : known? (log ++ [⟨key, a, some id⟩]) key =
    some (((known? log key).map Prod.fst).getD id, a) := by
  unfold known?
  rw [granted_self]
  cases hg : granted log key with
  | nil => simp
  | cons first rest =>
    have hfirst : first.answer.isSome := (mem_granted.mp (hg ▸ List.mem_cons_self)).2.2
    obtain ⟨i, hi⟩ := Option.isSome_iff_exists.mp hfirst
    rw [List.getLast?_append_of_ne_nil _ (List.cons_ne_nil _ _)]
    simp [List.getLast?_cons, hi]

end Attempt

namespace Table

open Attempt

variable {α : Type} {t t' : Table α} {log : List (Attempt α)} {key key' : Key} {a : α} {id : Nat}

/-- The table is what the log of its requests says: lookups agree with the log, a number that was
handed out is in use and still belongs to its key, and it belongs to no other. -/
structure Records (t : Table α) (log : List (Attempt α)) : Prop where
  lookup : ∀ key : Key, t.lookup? key = known? log key
  kept : ∀ b ∈ log, ∀ id ∈ b.answer, id < t.size ∧ ∃ entry, t.lookup? b.key = some (id, entry)
  distinct : ∀ b ∈ log, ∀ c ∈ log, b.answer.isSome → b.answer = c.answer → b.key = c.key
  size_le : t.size ≤ capacity

theorem records_empty : Records ({} : Table α) [] where
  lookup key := by
    simp [lookup?, known?, granted]
  kept := List.forall_mem_nil _
  distinct := List.forall_mem_nil _
  size_le := Nat.zero_le _

/-- In an indexed table every number that is in use has its entry. -/
theorem Indexed.lookup?_isSome (h : t.Indexed) (hid : t.ids[key]? = some id) :
    ∃ b, t.lookup? key = some (id, b) := by
  have hlt : id < t.entries.size := h.lt hid
  exact ⟨t.entries[id], lookup?_eq_some_iff.mpr ⟨hid, Array.getElem?_eq_getElem hlt⟩⟩

theorem Indexed.lookup?_eq_none (h : t.Indexed) : t.lookup? key = none ↔ t.ids[key]? = none := by
  constructor
  · intro hnone
    by_contra hne
    obtain ⟨id, hid⟩ := Option.ne_none_iff_exists'.mp hne
    obtain ⟨b, hb⟩ := h.lookup?_isSome hid
    rw [hnone] at hb
    cases hb
  · intro hnone
    rw [lookup?, hnone]
    rfl

/-- A request is refused exactly if its key is new and the table is full. -/
theorem Indexed.add_eq_none_iff (h : t.Indexed) (hsize : t.size ≤ capacity) :
    (t.add key a).2 = none ↔ t.lookup? key = none ∧ t.size = capacity := by
  rw [h.lookup?_eq_none]
  constructor
  · intro hnone
    by_contra hne
    have hroom : t.ids[key]? ≠ none ∨ t.size < capacity := by
      by_cases hkey : t.ids[key]? = none
      · exact Or.inr (lt_of_le_of_ne hsize fun he => hne ⟨hkey, he⟩)
      · exact Or.inl hkey
    obtain ⟨t', id, hadd⟩ := exists_add hroom a
    rw [hadd] at hnone
    cases hnone
  · rintro ⟨hkey, hfull⟩
    have hnot : ¬ t.entries.size < capacity := (Nat.le_of_eq hfull.symm).not_gt
    simp only [Table.add, hkey, if_neg hnot]

/-- A refused request changes nothing. -/
theorem add_refused (h : (t.add key a).2 = none) : (t.add key a).1 = t := by
  cases hkey : t.ids[key]? with
  | some id =>
    rw [add_of_known hkey] at h
    cases h
  | none => exact add_eq_self hkey h

/-- After a granted request its key has the new function, and all others have what they had. -/
theorem Puts.lookup?_eq (h : t.Puts key a id t') (hi : t.Indexed) :
    t'.lookup? key' = if key' = key then some (id, a) else t.lookup? key' := by
  split
  · next he =>
    subst he
    exact lookup?_eq_some_iff.mpr ⟨h.ids_self, by rw [h.entry, if_pos rfl]⟩
  · next hne =>
    have hids : t'.ids[key']? = t.ids[key']? := by rw [h.ids, if_neg hne]
    cases hj : t.ids[key']? with
    | none =>
      rw [lookup?, hids, hj, hi.lookup?_eq_none.mpr hj]
      rfl
    | some j =>
      have hother : j ≠ id := by
        rintro rfl
        obtain ⟨hkey, -⟩ | ⟨-, hnext, -⟩ := h.place
        · exact hne (hi.inj hj hkey)
        · exact (Nat.ne_of_lt (hi.lt hj)) hnext
      obtain ⟨b, hb⟩ := hi.lookup?_isSome hj
      have hget := (lookup?_eq_some_iff.mp hb).2
      rw [hb]
      exact lookup?_eq_some_iff.mpr ⟨hids.trans hj, by rw [h.entry, if_neg hother, hget]⟩

/-- A number that was handed out before is that of its key after a granted request too. -/
theorem Puts.lookup?_kept (h : t.Puts key a id t') (hi : t.Indexed) {j : Nat} {b : α}
    (hj : t.lookup? key' = some (j, b)) : ∃ b', t'.lookup? key' = some (j, b') := by
  rw [h.lookup?_eq hi]
  split
  · next he =>
    subst he
    have hid := (lookup?_eq_some_iff.mp hj).1
    obtain ⟨hkey, -⟩ | ⟨hnone, -, -⟩ := h.place
    · exact ⟨a, by rw [Option.some.inj (hkey.symm.trans hid)]⟩
    · rw [hnone] at hid
      cases hid
  · exact ⟨b, hj⟩

theorem Records.grant (h : t.Records log) (hi : t.Indexed) (hadd : t.add key a = (t', some id)) :
    t'.Records (log ++ [⟨key, a, some id⟩]) := by
  have hputs := hi.puts hadd
  have hself : t'.lookup? key = some (id, a) := by rw [hputs.lookup?_eq hi, if_pos rfl]
  have hlt : id < t'.size := by
    obtain ⟨hkey, hsize⟩ | ⟨-, hid, hsize⟩ := hputs.place
    · exact hsize ▸ hi.lt hkey
    · omega
  -- Only the number of the new request has to be compared with those handed out before.
  have hnumber : ∀ b ∈ log, b.answer = some id → b.key = key := by
    intro b hb hid
    obtain ⟨-, entry, hentry⟩ := h.kept b hb id hid
    obtain ⟨entry', hentry'⟩ := hputs.lookup?_kept hi hentry
    exact ((hi.add key a).1.inj (by simpa [hadd] using (lookup?_eq_some_iff.mp hentry').1)
      (by simpa [hadd] using hputs.ids_self))
  refine ⟨fun key' => ?_, fun b hb j hj => ?_, fun b hb c hc hsome he => ?_, ?_⟩
  · rw [hputs.lookup?_eq hi]
    split
    · next he =>
      subst he
      rw [known?_self, ← h.lookup]
      cases hold : t.lookup? key' with
      | none => rfl
      | some old =>
        obtain ⟨j, b⟩ := old
        obtain ⟨b', hb'⟩ := hputs.lookup?_kept hi hold
        rw [hself] at hb'
        cases hb'
        rfl
    · next hne =>
      rw [h.lookup, known?, known?, granted_other (Ne.symm hne)]
  · obtain hb | hb := List.mem_append.mp hb
    · obtain ⟨hj', entry, hentry⟩ := h.kept b hb j hj
      exact ⟨hj'.trans_le hputs.size_le, hputs.lookup?_kept hi hentry⟩
    · obtain rfl := List.mem_singleton.mp hb
      cases hj
      exact ⟨hlt, a, hself⟩
  · obtain hb | hb := List.mem_append.mp hb <;> obtain hc | hc := List.mem_append.mp hc
    · exact h.distinct b hb c hc hsome he
    · obtain rfl := List.mem_singleton.mp hc
      exact hnumber b hb he
    · obtain rfl := List.mem_singleton.mp hb
      exact (hnumber c hc he.symm).symm
    · rw [List.mem_singleton.mp hb, List.mem_singleton.mp hc]
  · simpa [hadd] using size_add_le h.size_le key a

theorem Records.refuse (h : t.Records log) : t.Records (log ++ [⟨key, a, none⟩]) := by
  refine ⟨fun key' => ?_, fun b hb j hj => ?_, fun b hb c hc hsome he => ?_, h.size_le⟩
  · rw [h.lookup, known?, known?, granted_refused]
  · obtain hb | hb := List.mem_append.mp hb
    · exact h.kept b hb j hj
    · obtain rfl := List.mem_singleton.mp hb
      cases hj
  · have hc' : c.answer.isSome := he ▸ hsome
    obtain hb | hb := List.mem_append.mp hb
    · obtain hc | hc := List.mem_append.mp hc
      · exact h.distinct b hb c hc hsome he
      · obtain rfl := List.mem_singleton.mp hc
        cases hc'
    · obtain rfl := List.mem_singleton.mp hb
      cases hsome

/-- One more request keeps the table what its log says. -/
theorem Records.add (h : t.Records log) (hi : t.Indexed) (key : Key) (a : α) :
    (t.add key a).1.Records (log ++ [⟨key, a, (t.add key a).2⟩]) := by
  cases hadd : t.add key a with
  | mk t' answer =>
    cases answer with
    | some id => exact h.grant hi hadd
    | none =>
      have hnone : (t.add key a).2 = none := by rw [hadd]
      have hself : t' = t := by simpa [hadd] using add_refused hnone
      rw [hself]
      exact h.refuse

end Table

/-- A request to a registry. -/
inductive Registration where
  | native (qualifier name : String) (sig : Signature) (run : Stack → Stack)
  | method (type name : String) (sig : Signature) (run : Stack → Stack)
  | func (qualifier : String) (f : Func)

namespace Registration

/-- Makes the request. -/
def apply (r : Registry) : Registration → Registry × Option Nat
  | native qualifier name sig run => r.addNative qualifier name sig run
  | method type name sig run => r.addMethod type name sig run
  | func qualifier f => r.addFunc qualifier f

/-- What is to be put where: a native or a compiled function, under its key. -/
def wish : Registration → (Key × Native) ⊕ (Key × Func)
  | native qualifier name sig run =>
    .inl (⟨qualifier, name⟩, ⟨qualifier ++ "." ++ name, sig, sig.params.length, run⟩)
  | method type name sig run =>
    .inl (⟨type, name⟩, ⟨"(" ++ type ++ ")." ++ name, sig, sig.params.length + 1, run⟩)
  | func qualifier f => .inr (⟨qualifier, f.name⟩, f)

/-- A request for a native, as one to the table of natives. -/
def nativeAttempt? : Registration × Option Nat → Option (Attempt Native)
  | (request, answer) => request.wish.getLeft?.map fun (key, host) => ⟨key, host, answer⟩

/-- A request for a compiled function, as one to the table of functions. -/
def funcAttempt? : Registration × Option Nat → Option (Attempt Func)
  | (request, answer) => request.wish.getRight?.map fun (key, f) => ⟨key, f, answer⟩

variable {r : Registry} {request : Registration} {key : Key}

theorem apply_native {native : Native} (h : request.wish = .inl (key, native)) :
    request.apply r =
      ({ r with natives := (r.natives.add key native).1 }, (r.natives.add key native).2) := by
  cases request with
  | native | method =>
    cases h
    rfl
  | func => cases h

theorem apply_func {f : Func} (h : request.wish = .inr (key, f)) :
    request.apply r = ({ r with funcs := (r.funcs.add key f).1 }, (r.funcs.add key f).2) := by
  cases request with
  | native | method => cases h
  | func =>
    cases h
    rfl

end Registration

namespace Registry

open Registration

/-- Makes requests one after the other. Gives the registry in the end, and the log of the answers. -/
def serve (r : Registry) : List Registration → Registry × List (Registration × Option Nat)
  | [] => (r, [])
  | request :: requests =>
    let (r', answer) := request.apply r
    let (r'', log) := r'.serve requests
    (r'', (request, answer) :: log)

/-- Both tables are what the log says. -/
structure Logged (r : Registry) (log : List (Registration × Option Nat)) : Prop where
  natives : r.natives.Records (log.filterMap nativeAttempt?)
  funcs : r.funcs.Records (log.filterMap funcAttempt?)
  nativesIndexed : r.natives.Indexed
  funcsIndexed : r.funcs.Indexed

variable {r : Registry} {log : List (Registration × Option Nat)}

theorem logged_empty : empty.Logged [] :=
  ⟨Table.records_empty, Table.records_empty, Table.indexed_empty, Table.indexed_empty⟩

theorem Logged.apply (h : r.Logged log) (request : Registration) :
    (request.apply r).1.Logged (log ++ [(request, (request.apply r).2)]) := by
  cases hw : request.wish with
  | inl wish =>
    obtain ⟨key, native⟩ := wish
    rw [apply_native hw]
    refine ⟨?_, ?_, (h.nativesIndexed.add key native).1, h.funcsIndexed⟩
    · simpa [nativeAttempt?, hw] using h.natives.add h.nativesIndexed key native
    · simpa [funcAttempt?, hw] using h.funcs
  | inr wish =>
    obtain ⟨key, f⟩ := wish
    rw [apply_func hw]
    refine ⟨?_, ?_, h.nativesIndexed, (h.funcsIndexed.add key f).1⟩
    · simpa [nativeAttempt?, hw] using h.natives
    · simpa [funcAttempt?, hw] using h.funcs.add h.funcsIndexed key f

theorem Logged.serve (h : r.Logged log) (requests : List Registration) :
    (r.serve requests).1.Logged (log ++ (r.serve requests).2) := by
  induction requests generalizing r log with
  | nil => simpa [Registry.serve] using h
  | cons request requests ih =>
    have hrest := ih (h.apply request)
    rw [List.append_assoc] at hrest
    exact hrest

/-- The answer to one more request: it is refused exactly if no request for its key was granted and its
table is full, and then nothing changes at all. -/
structure Answers (r : Registry) (log : List (Registration × Option Nat)) (request : Registration) :
    Prop where
  native : ∀ key native, request.wish = .inl (key, native) →
    ((request.apply r).2 = none ↔
      Attempt.granted (log.filterMap nativeAttempt?) key = [] ∧ r.natives.size = Table.capacity)
  func : ∀ key f, request.wish = .inr (key, f) →
    ((request.apply r).2 = none ↔
      Attempt.granted (log.filterMap funcAttempt?) key = [] ∧ r.funcs.size = Table.capacity)
  unchanged : (request.apply r).2 = none → (request.apply r).1 = r

theorem Logged.answers (h : r.Logged log) (request : Registration) : r.Answers log request where
  native key native hw := by
    rw [apply_native hw, h.nativesIndexed.add_eq_none_iff h.natives.size_le, h.natives.lookup,
      Attempt.known?_eq_none]
  func key f hw := by
    rw [apply_func hw, h.funcsIndexed.add_eq_none_iff h.funcs.size_le, h.funcs.lookup,
      Attempt.known?_eq_none]
  unchanged hnone := by
    cases hw : request.wish with
    | inl wish =>
      rw [apply_native hw] at hnone ⊢
      exact congrArg (fun natives => { r with natives }) (Table.add_refused hnone)
    | inr wish =>
      rw [apply_func hw] at hnone ⊢
      exact congrArg (fun funcs => { r with funcs }) (Table.add_refused hnone)

/-- Whatever requests are made to an empty registry, it stays what its log says: for natives and
compiled functions apart, numbers that were handed out are in use and keep their keys, different keys
have different numbers, a lookup gives the number of the first request that was granted with the
function of the last one, no table outgrows its capacity, and one more request is refused exactly if
its key is new and its table is full, which changes nothing. -/
theorem serve_recorded (requests : List Registration) :
    let (r, log) := empty.serve requests
    r.natives.Records (log.filterMap nativeAttempt?) ∧
      r.funcs.Records (log.filterMap funcAttempt?) ∧
      ∀ request, r.Answers log request := by
  have h := logged_empty.serve requests
  exact ⟨h.natives, h.funcs, h.answers⟩

end Registry

end GoSift.Filter
