import GoSift.Proofs.Filter.Linking
import GoSift.Proofs.Outcome

/-!
Declaring a package in a registry that may know some of its names. A name that is known keeps its number
and gets the new function, and a new name gets the next number. So which names are known in the end, by
which signatures, and how many, does not depend on the order of the declarations.
-/
namespace GoSift.Filter

namespace Table

variable {α : Type} {t t' : Table α} {key key' : Key} {a : α} {id : Nat}

/-- Each number in use belongs to exactly one key. -/
structure Numbered (t : Table α) : Prop extends Indexed t where
  covered : ∀ {id : Nat}, id < t.size → ∃ key : Key, t.ids[key]? = some id

/-- The table `t'` is `t` with `a` under the number `id`, which is the one of its key, or the next one if
the key was new. -/
structure Puts (t : Table α) (key : Key) (a : α) (id : Nat) (t' : Table α) : Prop where
  ids : ∀ key' : Key, t'.ids[key']? = if key' = key then some id else t.ids[key']?
  entry : ∀ j, t'.get? j = if j = id then some a else t.get? j
  place : t.ids[key]? = some id ∧ t'.size = t.size ∨
    t.ids[key]? = none ∧ id = t.size ∧ t'.size = t.size + 1

theorem Indexed.puts (h : t.Indexed) (hadd : t.add key a = (t', some id)) : t.Puts key a id t' := by
  cases hkey : t.ids[key]? with
  | some i =>
    rw [add_of_known hkey] at hadd
    cases hadd
    have hlt : id < t.entries.size := h.lt hkey
    refine ⟨fun key' => ?_, fun j => ?_, Or.inl ⟨hkey, by simp [size]⟩⟩
    · split
      · next he => rw [he, hkey]
      · rfl
    · rw [get?, Array.getElem?_setIfInBounds]
      by_cases hj : id = j
      · rw [if_pos hj, if_pos hj.symm, if_pos hlt]
      · rw [if_neg hj, if_neg (Ne.symm hj)]
        rfl
  | none =>
    obtain ⟨rfl, hnew⟩ := add_of_new hkey (congrArg Prod.snd hadd)
    rw [hnew] at hadd
    cases hadd
    refine ⟨fun key' => ?_, fun j => ?_, Or.inr ⟨hkey, rfl, by simp [size]⟩⟩
    · rw [Std.HashMap.getElem?_insert]
      by_cases he : key' = key
      · simp [he]
      · simp [he, Ne.symm he]
    · rw [get?, Array.getElem?_push]
      rfl

theorem exists_add (h : t.ids[key]? ≠ none ∨ t.size < capacity) (a : α) :
    ∃ t' id, t.add key a = (t', some id) := by
  cases hkey : t.ids[key]? with
  | some i => exact ⟨_, i, add_of_known hkey⟩
  | none =>
    have hlt : t.entries.size < capacity := h.resolve_left (not_not_intro hkey)
    simp only [add, hkey, if_pos hlt]
    exact ⟨_, _, rfl⟩

namespace Puts

variable (h : t.Puts key a id t')
include h

theorem size_le : t.size ≤ t'.size := by
  obtain ⟨-, hsize⟩ | ⟨-, -, hsize⟩ := h.place <;> omega

/-- Keys keep their numbers. -/
theorem kept {j : Nat} (hj : t.ids[key']? = some j) : t'.ids[key']? = some j := by
  rw [h.ids]
  split
  · next he =>
    subst he
    obtain ⟨hid, -⟩ | ⟨hnone, -⟩ := h.place
    · exact hid.symm.trans hj
    · rw [hnone] at hj
      cases hj
  · exact hj

theorem ids_self : t'.ids[key]? = some id := by
  rw [h.ids, if_pos rfl]

end Puts

theorem numbered_empty : Numbered ({} : Table α) where
  toIndexed := indexed_empty
  covered h := absurd h (Nat.not_lt_zero _)

theorem Numbered.add (h : t.Numbered) (key : Key) (a : α) : (t.add key a).1.Numbered := by
  refine ⟨(h.toIndexed.add key a).1, fun {j} hj => ?_⟩
  cases hadd : t.add key a with
  | mk t' id =>
    rw [hadd] at hj
    cases id with
    | none =>
      have hself : t' = t := by
        cases hkey : t.ids[key]? with
        | some i =>
          rw [add_of_known hkey] at hadd
          cases hadd
        | none => exact (congrArg Prod.fst hadd).symm.trans (add_eq_self hkey (by rw [hadd]))
      rw [hself] at hj ⊢
      exact h.covered hj
    | some id =>
      have hputs := h.puts hadd
      by_cases hold : j < t.size
      · obtain ⟨key', hkey'⟩ := h.covered hold
        exact ⟨key', hputs.kept hkey'⟩
      · obtain ⟨-, hsize⟩ | ⟨-, hid, hsize⟩ := hputs.place
        · exact absurd (hsize ▸ hj) hold
        · have he : j = id := by
            dsimp only at hj
            omega
          exact ⟨key, he ▸ hputs.ids_self⟩

end Table

/-! ### Adding functions -/

/-- What a declaration is known as before it is compiled. -/
def stubOf (_ : Registry) (decl : GoSift.Func) : Except FilterError Func := do
  return .stub decl.name (← signatureOf decl).1

theorem faithful_stubOf : Faithful stubOf :=
  faithful_stub

/-- A package is compiled in two rounds. -/
theorem compilePackage_eq_ok {r r' : Registry} {package : String} {decls : List GoSift.Func}
    {ids : List Nat} : compilePackage r package decls = (r', .ok ids) ↔
      ∃ stubs ids₀, registerAll package stubOf r decls = (stubs, .ok ids₀) ∧
        registerAll package (fun r => compileFunc r package) stubs decls = (r', .ok ids) := by
  cases hstubs : registerAll package stubOf r decls with
  | mk stubs ids₀ =>
    have hfirst : registerAll package (fun (_ : Registry) (decl : GoSift.Func) => do
        return Func.stub decl.name (← signatureOf decl).1) r decls = (stubs, ids₀) := hstubs
    unfold compilePackage
    dsimp only
    rw [hfirst]
    cases ids₀ with
    | error e => simp
    | ok ids₀ => simp

namespace Registry

variable {base r r' : Registry} {package : String} {decl : GoSift.Func} {f : Func} {id : Nat}
  {decls done todo all : List GoSift.Func} {ids : List Nat}

theorem Built.numbered (h : r.Built) : r.funcs.Numbered := by
  induction h with
  | empty => exact Table.numbered_empty
  | native _ _ _ _ _ ih | method _ _ _ _ _ ih => exact ih
  | func _ _ _ ih => exact ih.add _ _

theorem Built.puts (h : r.Built) (hadd : r.addFunc package f = (r', some id)) :
    r'.natives = r.natives ∧ r.funcs.Puts ⟨package, f.name⟩ f id r'.funcs := by
  cases htable : r.funcs.add ⟨package, f.name⟩ f with
  | mk funcs id' =>
    simp only [addFunc, htable, Prod.mk.injEq] at hadd
    obtain ⟨rfl, rfl⟩ := hadd
    exact ⟨rfl, h.numbered.puts htable⟩

theorem exists_addFunc
    (h : r.funcs.ids[(⟨package, f.name⟩ : Key)]? ≠ none ∨ r.funcs.size < Table.capacity) :
    ∃ r' id, r.addFunc package f = (r', some id) := by
  obtain ⟨funcs, id, hadd⟩ := Table.exists_add h f
  exact ⟨{ r with funcs }, id, by rw [addFunc, hadd]⟩

theorem registerAll_cons_ok {make : Registry → GoSift.Func → Except FilterError Func} {rest : List Nat}
    (hf : make r decl = .ok f) {r₁ : Registry} (hadd : r.addFunc package f = (r₁, some id))
    (hrest : registerAll package make r₁ decls = (r', .ok rest)) :
    registerAll package make r (decl :: decls) = (r', .ok (id :: rest)) := by
  simp only [registerAll, register, hf, hadd, hrest]
  rfl

/-! ### Registries of the host -/

/-- A registry as a host makes it: with natives and methods, and packages that could be compiled. -/
inductive Assembled : Registry → Prop
  | empty : Assembled empty
  | native {r : Registry} (h : Assembled r) (qualifier name : String) (sig : Signature)
      (run : Stack → Stack) : Assembled (r.addNative qualifier name sig run).1
  | method {r : Registry} (h : Assembled r) (type name : String) (sig : Signature)
      (run : Stack → Stack) : Assembled (r.addMethod type name sig run).1
  | package {r r' : Registry} {ids : List Nat} (h : Assembled r) (package : String)
      (decls : List GoSift.Func) (hc : compilePackage r package decls = (r', .ok ids)) : Assembled r'

/-- A function was compiled when no more functions were known than are now. -/
def Origin (r : Registry) (f : Func) : Prop :=
  ∃ known package decl, Built known ∧ known.funcs.size ≤ r.funcs.size ∧
    compileFunc known package decl = .ok f

/-- All functions were compiled, except those of some declarations. -/
def SourcedBut (r : Registry) (package : String) (todo : List GoSift.Func) : Prop :=
  ∀ {id : Nat} {f : Func}, r.funcs.get? id = some f →
    r.Origin f ∨ ∃ decl ∈ todo, r.funcs.ids[(⟨package, decl.name⟩ : Key)]? = some id

theorem Origin.mono (h : r.Origin f) (hle : r.funcs.size ≤ r'.funcs.size) : r'.Origin f := by
  obtain ⟨known, package, decl, hb, hsize, hf⟩ := h
  exact ⟨known, package, decl, hb, hsize.trans hle, hf⟩

/-- Putting the function of a declaration into its place leaves the others as they are. -/
theorem SourcedBut.put (h : r.SourcedBut package all)
    (hput : r.funcs.Puts ⟨package, decl.name⟩ f id r'.funcs)
    (hall : r'.Origin f ∧ all = decl :: todo ∨ decl ∈ todo ∧ all = todo) :
    r'.SourcedBut package todo := by
  intro j g hg
  rw [hput.entry] at hg
  split at hg
  · next he =>
    cases hg
    obtain ⟨hf, -⟩ | ⟨hmem, -⟩ := hall
    · exact Or.inl hf
    · exact Or.inr ⟨decl, hmem, he ▸ hput.ids_self⟩
  · next hne =>
    obtain horigin | ⟨d, hd, hj⟩ := h hg
    · exact Or.inl (horigin.mono hput.size_le)
    · have hkept := hput.kept hj
      obtain ⟨-, rfl⟩ | ⟨-, rfl⟩ := hall
      · obtain rfl | hd := List.mem_cons.mp hd
        · exact absurd (Option.some.inj (hkept.symm.trans hput.ids_self)) hne
        · exact Or.inr ⟨d, hd, hkept⟩
      · exact Or.inr ⟨d, hd, hkept⟩

theorem SourcedBut.stubs (h : r.SourcedBut package all) (hb : r.Built) (hsub : decls ⊆ all)
    (hreg : registerAll package stubOf r decls = (r', .ok ids)) :
    r'.SourcedBut package all ∧ r'.Built := by
  induction decls generalizing r ids with
  | nil =>
    cases hreg
    exact ⟨h, hb⟩
  | cons decl decls ih =>
    obtain ⟨f, r₁, id, rest, hf, hadd, hrest, rfl⟩ := registerAll_cons_eq_ok hreg
    have hput := (hb.puts hadd).2
    rw [(faithful_stubOf hf).1] at hput
    obtain ⟨hmem, hsub⟩ := List.cons_subset.mp hsub
    exact ih (h.put hput (Or.inr ⟨hmem, rfl⟩)) (hb.of_addFunc hadd) hsub hrest

theorem SourcedBut.compiled (h : r.SourcedBut package decls) (hb : r.Built)
    (hreg : registerAll package (fun r => compileFunc r package) r decls = (r', .ok ids)) :
    r'.SourcedBut package [] ∧ r'.Built := by
  induction decls generalizing r ids with
  | nil =>
    cases hreg
    exact ⟨h, hb⟩
  | cons decl decls ih =>
    obtain ⟨f, r₁, id, rest, hf, hadd, hrest, rfl⟩ := registerAll_cons_eq_ok hreg
    have hput := (hb.puts hadd).2
    rw [(faithful_compileFunc hf).1] at hput
    have horigin : r₁.Origin f := ⟨r, package, decl, hb, hput.size_le, hf⟩
    exact ih (h.put hput (Or.inl ⟨horigin, rfl⟩)) (hb.of_addFunc hadd) hrest

/-- Every function of a host's registry was compiled. -/
theorem Assembled.origin (h : r.Assembled) :
    r.Built ∧ ∀ {id : Nat} {f : Func}, r.funcs.get? id = some f → r.Origin f := by
  induction h with
  | empty =>
    refine ⟨.empty, fun {id f} hf => ?_⟩
    have hnone : Registry.empty.funcs.get? id = none := Array.getElem?_empty
    rw [hnone] at hf
    cases hf
  | native _ _ _ _ _ ih => exact ⟨ih.1.native .., ih.2⟩
  | method _ _ _ _ _ ih => exact ⟨ih.1.method .., ih.2⟩
  | @package r r' ids _ package decls hc ih =>
    obtain ⟨stubs, ids₀, hstubs, hlast⟩ := compilePackage_eq_ok.mp hc
    have hsourced : r.SourcedBut package decls := fun hf => Or.inl (ih.2 hf)
    obtain ⟨hfirst, hfirstb⟩ := hsourced.stubs ih.1 (List.Subset.refl _) hstubs
    obtain ⟨hr', hr'b⟩ := hfirst.compiled hfirstb hlast
    refine ⟨hr'b, fun hf => (hr' hf).resolve_right ?_⟩
    simp

/-! ### Declarations -/

/-- How many names a package adds to those that are known. -/
def newCount (base : Registry) (package : String) (decls : List GoSift.Func) : Nat :=
  decls.countP fun decl => base.funcs.ids[(⟨package, decl.name⟩ : Key)]? = none

theorem newCount_append :
    base.newCount package (done ++ decls) = base.newCount package done + base.newCount package decls :=
  List.countP_append

theorem newCount_cons : base.newCount package (decl :: decls) = base.newCount package decls +
    if base.funcs.ids[(⟨package, decl.name⟩ : Key)]? = none then 1 else 0 := by
  rw [newCount, List.countP_cons]
  simp only [decide_eq_true_eq]
  rfl

/-- The registry `r` knows the functions of `base` by the numbers they had, and the declarations of a
package by their signatures. Apart from these nothing has changed. -/
structure Declares (base : Registry) (package : String) (decls : List GoSift.Func) (r : Registry) :
    Prop where
  built : r.Built
  natives : r.natives = base.natives
  size : r.funcs.size = base.funcs.size + base.newCount package decls
  kept : ∀ {key : Key} {id : Nat}, base.funcs.ids[key]? = some id → r.funcs.ids[key]? = some id
  other : ∀ {key : Key}, (∀ decl ∈ decls, key ≠ ⟨package, decl.name⟩) →
    r.funcs.ids[key]? = base.funcs.ids[key]?
  old : ∀ {id : Nat}, (∀ decl ∈ decls, r.funcs.ids[(⟨package, decl.name⟩ : Key)]? ≠ some id) →
    r.funcs.get? id = base.funcs.get? id
  known : ∀ {decl : GoSift.Func}, decl ∈ decls →
    ∃ id f, r.lookupFunc? package decl.name = some (id, f) ∧ f.sig = (headOf decl).1

theorem Built.declares (h : base.Built) : base.Declares package [] base where
  built := h
  natives := rfl
  size := rfl
  kept := fun h => h
  other _ := rfl
  old _ := rfl
  known h := nomatch h

theorem Declares.perm (h : base.Declares package decls r) (hperm : decls.Perm all) :
    base.Declares package all r where
  built := h.built
  natives := h.natives
  size := by rw [h.size, newCount, newCount, hperm.countP_eq]
  kept := h.kept
  other hother := h.other fun decl hdecl => hother decl (hperm.mem_iff.mp hdecl)
  old hold := h.old fun decl hdecl => hold decl (hperm.mem_iff.mp hdecl)
  known hdecl := h.known (hperm.mem_iff.mpr hdecl)

theorem Declares.ids_known (h : base.Declares package decls r) (hdecl : decl ∈ decls) :
    ∃ id, r.funcs.ids[(⟨package, decl.name⟩ : Key)]? = some id := by
  obtain ⟨id, f, hlookup, -⟩ := h.known hdecl
  exact ⟨id, (Table.lookup?_eq_some_iff.mp hlookup).1⟩

/-- Declaring one more name. -/
theorem Declares.push (h : base.Declares package done r) (hnew : decl.name ∉ done.map (·.name))
    (hname : f.name = decl.name) (hsig : f.sig = (headOf decl).1)
    (hadd : r.addFunc package f = (r', some id)) : base.Declares package (done ++ [decl]) r' := by
  obtain ⟨hnatives, hput⟩ := h.built.puts hadd
  rw [hname] at hput
  have hkey : ∀ d ∈ done, (⟨package, d.name⟩ : Key) ≠ ⟨package, decl.name⟩ := by
    intro d hd he
    exact hnew (List.mem_map.mpr ⟨d, hd, congrArg Key.name he⟩)
  have hbase : r.funcs.ids[(⟨package, decl.name⟩ : Key)]? =
      base.funcs.ids[(⟨package, decl.name⟩ : Key)]? :=
    h.other fun d hd he => hkey d hd he.symm
  have hb' := h.built.of_addFunc hadd
  refine ⟨hb', hnatives.trans h.natives, ?_, fun hid => hput.kept (h.kept hid), ?_, ?_, ?_⟩
  · have hsize := h.size
    have hcount : base.newCount package [] = 0 := rfl
    rw [newCount_append, newCount_cons, hcount, ← hbase]
    obtain ⟨hid, hsame⟩ | ⟨hnone, -, hmore⟩ := hput.place
    · rw [hid, if_neg nofun]
      omega
    · rw [hnone, if_pos rfl]
      omega
  · intro key hother
    obtain ⟨hdone, hlast⟩ := List.forall_mem_append.mp hother
    rw [hput.ids, if_neg (hlast decl List.mem_cons_self), h.other hdone]
  · intro j hold
    obtain ⟨hdone, hlast⟩ := List.forall_mem_append.mp hold
    have hne : j ≠ id := by
      rintro rfl
      exact hlast decl List.mem_cons_self hput.ids_self
    rw [hput.entry, if_neg hne]
    exact h.old fun d hd hj => hdone d hd (hput.kept hj)
  · intro d hd
    obtain hd | hd := List.mem_append.mp hd
    · obtain ⟨j, g, hlookup, hg⟩ := h.known hd
      obtain ⟨hj, hget⟩ := Table.lookup?_eq_some_iff.mp hlookup
      have hj' := hput.kept hj
      have hne : j ≠ id := by
        rintro rfl
        exact hkey d hd (hb'.numbered.inj hj' hput.ids_self)
      exact ⟨j, g, Table.lookup?_eq_some_iff.mpr ⟨hj', by rw [hput.entry, if_neg hne, hget]⟩, hg⟩
    · obtain rfl := List.mem_singleton.mp hd
      exact ⟨id, f, Table.lookup?_eq_some_iff.mpr
        ⟨hput.ids_self, by rw [hput.entry, if_pos rfl]⟩, hsig⟩

/-- Putting a function into the place of its declaration. -/
theorem Declares.set (h : base.Declares package all r) (hd : (all.map (·.name)).Nodup)
    (hdecl : decl ∈ all) (hname : f.name = decl.name) (hsig : f.sig = (headOf decl).1)
    (hadd : r.addFunc package f = (r', some id)) :
    base.Declares package all r' ∧ (∀ key : Key, r'.funcs.ids[key]? = r.funcs.ids[key]?) ∧
      r.funcs.ids[(⟨package, decl.name⟩ : Key)]? = some id ∧
      ∀ j, r'.funcs.get? j = if j = id then some f else r.funcs.get? j := by
  obtain ⟨hnatives, hput⟩ := h.built.puts hadd
  rw [hname] at hput
  obtain ⟨i, hi⟩ := h.ids_known hdecl
  obtain ⟨hid, hsize⟩ : r.funcs.ids[(⟨package, decl.name⟩ : Key)]? = some id ∧
      r'.funcs.size = r.funcs.size := by
    refine hput.place.resolve_right fun hnew => ?_
    rw [hnew.1] at hi
    cases hi
  have hids : ∀ key : Key, r'.funcs.ids[key]? = r.funcs.ids[key]? := by
    intro key
    rw [hput.ids]
    split
    · next he => rw [he, hid]
    · rfl
  have hb' := h.built.of_addFunc hadd
  refine ⟨⟨hb', hnatives.trans h.natives, hsize.trans h.size, ?_, ?_, ?_, ?_⟩, hids, hid, hput.entry⟩
  · intro key j hj
    rw [hids, h.kept hj]
  · intro key hother
    rw [hids, h.other hother]
  · intro j hold
    have hne : j ≠ id := by
      rintro rfl
      exact hold decl hdecl ((hids _).trans hid)
    rw [hput.entry, if_neg hne]
    exact h.old fun d hd hj => hold d hd ((hids _).trans hj)
  · intro d hmem
    obtain ⟨j, g, hlookup, hg⟩ := h.known hmem
    obtain ⟨hj, hget⟩ := Table.lookup?_eq_some_iff.mp hlookup
    by_cases he : j = id
    · subst he
      have hsame : d = decl := by
        apply List.inj_on_of_nodup_map hd hmem hdecl
        exact congrArg Key.name (h.built.numbered.inj hj hid)
      subst hsame
      exact ⟨j, f, Table.lookup?_eq_some_iff.mpr
        ⟨hput.ids_self, by rw [hput.entry, if_pos rfl]⟩, hsig⟩
    · exact ⟨j, g, Table.lookup?_eq_some_iff.mpr
        ⟨(hids _).trans hj, by rw [hput.entry, if_neg he, hget]⟩, hg⟩

/-- Of declarations with different names, each has a name that is new to those in front of it. -/
theorem name_notMem_of_nodup (hd : ((done ++ decl :: decls).map (·.name)).Nodup) :
    decl.name ∉ done.map (·.name) := by
  simp only [List.map_append, List.map_cons] at hd
  exact fun hm => (List.nodup_append.mp hd).2.2 _ hm _ List.mem_cons_self rfl

/-- The first round declares the package. -/
theorem Declares.stubs (h : base.Declares package done r) (hd : ((done ++ decls).map (·.name)).Nodup)
    (hreg : registerAll package stubOf r decls = (r', .ok ids)) :
    base.Declares package (done ++ decls) r' ∧ ∀ decl ∈ decls, ∃ head, signatureOf decl = .ok head := by
  induction decls generalizing r done ids with
  | nil =>
    cases hreg
    rw [List.append_nil]
    exact ⟨h, nofun⟩
  | cons decl decls ih =>
    obtain ⟨f, r₁, id, rest, hf, hadd, hrest, rfl⟩ := registerAll_cons_eq_ok hreg
    obtain ⟨hname, hsig⟩ := faithful_stubOf hf
    obtain ⟨head, hhead, -⟩ := except_bind_eq_ok.mp hf
    have hnew := name_notMem_of_nodup hd
    rw [List.append_cons] at hd ⊢
    obtain ⟨hall, hheads⟩ := ih (h.push hnew hname hsig hadd) hd hrest
    exact ⟨hall, List.forall_mem_cons.mpr ⟨⟨head, hhead⟩, hheads⟩⟩

/-- The first round succeeds if all declarations have signatures and there is room for the new names. -/
theorem Declares.exists_stubs (h : base.Declares package done r)
    (hd : ((done ++ decls).map (·.name)).Nodup)
    (hheads : ∀ decl ∈ decls, ∃ head, signatureOf decl = .ok head)
    (hroom : base.funcs.size + base.newCount package (done ++ decls) ≤ Table.capacity) :
    ∃ r' ids, registerAll package stubOf r decls = (r', .ok ids) := by
  induction decls generalizing r done with
  | nil => exact ⟨r, [], rfl⟩
  | cons decl decls ih =>
    obtain ⟨⟨head, hhead⟩, hheads⟩ := List.forall_mem_cons.mp hheads
    have hf : stubOf r decl = .ok (.stub decl.name head.1) := by
      rw [stubOf, hhead]
      rfl
    obtain ⟨hname, hsig⟩ := faithful_stubOf hf
    have hnew := name_notMem_of_nodup hd
    have hplace : r.funcs.ids[(⟨package, decl.name⟩ : Key)]? ≠ none ∨
        r.funcs.size < Table.capacity := by
      refine or_iff_not_imp_left.mpr fun hnone => ?_
      rw [not_not, h.other fun d hd he => hnew (List.mem_map.mpr ⟨d, hd, congrArg Key.name he.symm⟩)]
        at hnone
      rw [h.size]
      rw [newCount_append, newCount_cons, if_pos hnone] at hroom
      omega
    obtain ⟨r₁, id, hadd⟩ := exists_addFunc (f := .stub decl.name head.1) hplace
    rw [List.append_cons] at hd hroom
    obtain ⟨r', rest, hrest⟩ := ih (h.push hnew hname hsig hadd) hd hheads hroom
    exact ⟨r', _, registerAll_cons_ok hf hadd hrest⟩

/-- Functions that lie compiled in the places of their declarations. What was known when one of them was
compiled has the numbers of `r`. -/
def Placed (base : Registry) (package : String) (all decls : List GoSift.Func) (r : Registry) : Prop :=
  ∀ ⦃decl : GoSift.Func⦄, decl ∈ decls → ∃ known id f, base.Declares package all known ∧
    (∀ key : Key, r.funcs.ids[key]? = known.funcs.ids[key]?) ∧ compileFunc known package decl = .ok f ∧
    r.funcs.ids[(⟨package, decl.name⟩ : Key)]? = some id ∧ r.funcs.get? id = some f

theorem Placed.perm {all' decls' : List GoSift.Func} (h : base.Placed package all decls r)
    (hperm : all.Perm all') (hsub : decls' ⊆ decls) : base.Placed package all' decls' r := by
  intro decl hdecl
  obtain ⟨known, id, f, hknown, hplace⟩ := h (hsub hdecl)
  exact ⟨known, id, f, hknown.perm hperm, hplace⟩

/-- The second round puts each function into its place. -/
theorem Declares.placed (h : base.Declares package all r) (hd : (all.map (·.name)).Nodup)
    (hsub : decls ⊆ all) (hdecls : (decls.map (·.name)).Nodup)
    (hreg : registerAll package (fun r => compileFunc r package) r decls = (r', .ok ids)) :
    base.Declares package all r' ∧ (∀ key : Key, r'.funcs.ids[key]? = r.funcs.ids[key]?) ∧
      (∀ {j : Nat}, (∀ decl ∈ decls, r.funcs.ids[(⟨package, decl.name⟩ : Key)]? ≠ some j) →
        r'.funcs.get? j = r.funcs.get? j) ∧
      ids.map some = decls.map (fun decl => r.funcs.ids[(⟨package, decl.name⟩ : Key)]?) ∧
      base.Placed package all decls r' := by
  induction decls generalizing r ids with
  | nil =>
    cases hreg
    exact ⟨h, fun _ => rfl, fun _ => rfl, rfl, nofun⟩
  | cons decl decls ih =>
    obtain ⟨f, r₁, id, rest, hf, hadd, hrest, rfl⟩ := registerAll_cons_eq_ok hreg
    obtain ⟨hname, hsig⟩ := faithful_compileFunc hf
    obtain ⟨hmem, hsub⟩ := List.cons_subset.mp hsub
    obtain ⟨hnotin, hdecls⟩ := List.nodup_cons.mp hdecls
    obtain ⟨h₁, hids₁, hid, hget₁⟩ := h.set hd hmem hname hsig hadd
    obtain ⟨hr', hids', hget', hrest', hplaced⟩ := ih h₁ hsub hdecls hrest
    have hids : ∀ key : Key, r'.funcs.ids[key]? = r.funcs.ids[key]? :=
      fun key => (hids' key).trans (hids₁ key)
    refine ⟨hr', hids, ?_, ?_, ?_⟩
    · intro j hj
      obtain ⟨hfirst, hlater⟩ := List.forall_mem_cons.mp hj
      have hne : j ≠ id := by
        rintro rfl
        exact hfirst hid
      rw [hget' fun d hd => by rw [hids₁]; exact hlater d hd, hget₁, if_neg hne]
    · simp only [List.map_cons, hid, hrest', hids₁]
    · intro d hmem'
      obtain rfl | hmem' := List.mem_cons.mp hmem'
      · refine ⟨r, id, f, h, hids, hf, (hids _).trans hid, ?_⟩
        -- The later declarations have other names, and so other numbers.
        rw [hget' fun d' hd' he => ?_, hget₁, if_pos rfl]
        rw [hids₁] at he
        have hkey := h.built.numbered.inj he hid
        exact hnotin (List.mem_map.mpr ⟨d', hd', congrArg Key.name hkey⟩)
      · exact hplaced hmem'

/-- The second round succeeds if every declaration can be compiled. -/
theorem Declares.exists_placed (h : base.Declares package all r) (hd : (all.map (·.name)).Nodup)
    (hsub : decls ⊆ all)
    (hcompile : ∀ known, base.Declares package all known → ∀ decl ∈ decls,
      ∃ f, compileFunc known package decl = .ok f) :
    ∃ r' ids, registerAll package (fun r => compileFunc r package) r decls = (r', .ok ids) := by
  induction decls generalizing r with
  | nil => exact ⟨r, [], rfl⟩
  | cons decl decls ih =>
    obtain ⟨f, hf⟩ := hcompile r h decl List.mem_cons_self
    obtain ⟨hname, hsig⟩ := faithful_compileFunc hf
    obtain ⟨hmem, hsub⟩ := List.cons_subset.mp hsub
    obtain ⟨i, hi⟩ := h.ids_known hmem
    rw [← hname] at hi
    obtain ⟨r₁, id, hadd⟩ := exists_addFunc (r := r) (f := f) (Or.inl (by rw [hi]; nofun))
    obtain ⟨r', rest, hrest⟩ := ih (h.set hd hmem hname hsig hadd).1 hsub
      fun known hknown d hd => hcompile known hknown d (List.mem_cons_of_mem _ hd)
    exact ⟨r', _, registerAll_cons_ok hf hadd hrest⟩

variable (hb : base.Built) (hd : (decls.map (·.name)).Nodup)
include hb hd

/-- What compiling a package does to a registry. -/
theorem declares_of_compilePackage (h : compilePackage base package decls = (r, .ok ids)) :
    base.Declares package decls r ∧ base.Placed package decls decls r ∧
      ids.map some = decls.map (fun decl => r.funcs.ids[(⟨package, decl.name⟩ : Key)]?) ∧
      ∀ decl ∈ decls, ∃ head, signatureOf decl = .ok head := by
  obtain ⟨stubs, ids₀, hstubs, hlast⟩ := compilePackage_eq_ok.mp h
  obtain ⟨hfirst, hheads⟩ := hb.declares.stubs hd hstubs
  obtain ⟨hr, hids, -, hnumbers, hplaced⟩ := hfirst.placed hd (List.Subset.refl _) hd hlast
  refine ⟨hr, hplaced, ?_, hheads⟩
  rw [hnumbers]
  exact List.map_congr_left fun decl _ => (hids _).symm

/-- A package can be compiled if its declarations can, however what they call is numbered. -/
theorem exists_compilePackage (hheads : ∀ decl ∈ decls, ∃ head, signatureOf decl = .ok head)
    (hroom : base.funcs.size + base.newCount package decls ≤ Table.capacity)
    (hcompile : ∀ known, base.Declares package decls known → ∀ decl ∈ decls,
      ∃ f, compileFunc known package decl = .ok f) :
    ∃ r ids, compilePackage base package decls = (r, .ok ids) := by
  obtain ⟨stubs, ids₀, hstubs⟩ := hb.declares.exists_stubs hd hheads hroom
  obtain ⟨hfirst, -⟩ := hb.declares.stubs hd hstubs
  obtain ⟨r, ids, hlast⟩ := hfirst.exists_placed hd (List.Subset.refl _) hcompile
  exact ⟨r, ids, compilePackage_eq_ok.mpr ⟨stubs, ids₀, hstubs, hlast⟩⟩

end Registry

end GoSift.Filter
