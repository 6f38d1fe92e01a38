import GoSift.Proofs.Filter.Registered
import GoSift.Proofs.Filter.Resolution

/-!
Linking. The functions of a package get their places before any of them is compiled, and keep them: in
the end each place holds the code of its declaration, compiled against a registry that knows them all.
-/
namespace GoSift.Filter

/-- Each declaration of the program is compiled and lies in its place. -/
structure Program.Linked (P : Program) (r : Registry) : Prop where
  natives : r.natives = P.natives
  size : r.funcs.size = P.decls.length
  func : ∀ {i : Nat} {decl : GoSift.Func}, P.decls[i]? = some decl →
    ∃ known f, P.Known known ∧ known.Built ∧ compileFunc known P.package decl = .ok f ∧
      r.funcs.get? i = some f

/-- Of declarations with different names each is found by its own. -/
theorem Program.decl?_name {P : Program} {decl : GoSift.Func} (hd : (P.decls.map (·.name)).Nodup)
    (hm : decl ∈ P.decls) : P.decl? decl.name = some decl := by
  cases hfound : P.decl? decl.name with
  | none =>
    have hnone := List.find?_eq_none.mp hfound decl hm
    simp at hnone
  | some other =>
    have hname : other.name = decl.name := by simpa using List.find?_some hfound
    have heq := List.inj_on_of_nodup_map hd (List.mem_of_find?_eq_some hfound) hm hname
    rw [heq]

section

variable {r r' : Registry} {package : String} {decl : GoSift.Func} {id : Nat}

theorem register_eq_ok {func : Except FilterError Func}
    (h : register r package decl func = (r', .ok id)) :
    ∃ f, func = .ok f ∧ r.addFunc package f = (r', some id) := by
  unfold register at h
  split at h
  · cases h
  · next f =>
    split at h
    · next r₁ id₁ hadd =>
      cases h
      exact ⟨f, rfl, hadd⟩
    · cases h

theorem registerAll_cons_eq_ok {make : Registry → GoSift.Func → Except FilterError Func}
    {decls : List GoSift.Func} {ids : List Nat}
    (h : registerAll package make r (decl :: decls) = (r', .ok ids)) :
    ∃ f r₁ id rest, make r decl = .ok f ∧ r.addFunc package f = (r₁, some id) ∧
      registerAll package make r₁ decls = (r', .ok rest) ∧ ids = id :: rest := by
  rw [registerAll] at h
  split at h
  · cases h
  · next r₁ id hreg =>
    obtain ⟨f, hf, hadd⟩ := register_eq_ok hreg
    dsimp only at h
    cases hrest : registerAll package make r₁ decls with
    | mk r₂ rest =>
      rw [hrest] at h
      cases rest with
      | error e => cases h
      | ok rest =>
        cases h
        exact ⟨f, r₁, id, rest, hf, hadd, hrest, rfl⟩

theorem findIdx?_eq_none {decls : List GoSift.Func} {name : String}
    (h : name ∉ decls.map (·.name)) : decls.findIdx? (·.name = name) = none := by
  rw [List.findIdx?_eq_none_iff]
  intro d hd
  simpa using fun he => h (List.mem_map.mpr ⟨d, hd, he⟩)

/-- What is made of a declaration has its name and its signature. -/
def Faithful (make : Registry → GoSift.Func → Except FilterError Func) : Prop :=
  ∀ ⦃r : Registry⦄ ⦃decl : GoSift.Func⦄ ⦃f : Func⦄, make r decl = .ok f →
    f.name = decl.name ∧ f.sig = (headOf decl).1

namespace Registry

theorem Built.of_addFunc {f : Func} (h : r.Built) (hadd : r.addFunc package f = (r', some id)) :
    r'.Built := by
  have hr' : (r.addFunc package f).1 = r' := congrArg Prod.fst hadd
  exact hr' ▸ h.func package f

/-- Behind the functions of `base` the registry has those of a package, known by their signatures, in
the order of their declarations. -/
structure Holds (base : Registry) (package : String) (decls : List GoSift.Func) (r : Registry) :
    Prop where
  natives : r.natives = base.natives
  size : r.funcs.size = base.funcs.size + decls.length
  ids : ∀ key : Key, r.funcs.ids[key]? =
    if key.qualifier = package then
      (decls.findIdx? (·.name = key.name)).map (base.funcs.size + ·)
    else base.funcs.ids[key]?
  old : ∀ i < base.funcs.size, r.funcs.get? i = base.funcs.get? i
  sig : ∀ {i : Nat} {decl : GoSift.Func}, decls[i]? = some decl →
    ∃ f, r.funcs.get? (base.funcs.size + i) = some f ∧ f.sig = (headOf decl).1

/-- No function is known under the name of a package. -/
def Lacks (r : Registry) (package : String) : Prop :=
  ∀ key : Key, key.qualifier = package → r.funcs.ids[key]? = none

variable {base : Registry} {f : Func} {done decls : List GoSift.Func}

theorem Lacks.holds (h : base.Lacks package) : base.Holds package [] base where
  natives := rfl
  size := rfl
  ids key := by
    by_cases hq : key.qualifier = package
    · rw [if_pos hq, h key hq]
      rfl
    · rw [if_neg hq]
  old _ _ := rfl
  sig hi := by cases hi

/-- A function with a new name gets the next place. -/
theorem Holds.push (h : base.Holds package done r) (hnew : decl.name ∉ done.map (·.name))
    (hname : f.name = decl.name) (hsig : f.sig = (headOf decl).1)
    (hadd : r.addFunc package f = (r', some id)) : base.Holds package (done ++ [decl]) r' := by
  have hnone : r.funcs.ids[(⟨package, f.name⟩ : Key)]? = none := by
    rw [h.ids, if_pos rfl, hname, findIdx?_eq_none hnew]
    rfl
  have hid : (r.funcs.add ⟨package, f.name⟩ f).2 = some id := congrArg Prod.snd hadd
  obtain ⟨rfl, htable⟩ := Table.add_of_new hnone hid
  have hr' : r' = { r with funcs := (r.funcs.add ⟨package, f.name⟩ f).1 } :=
    (congrArg Prod.fst hadd).symm
  rw [htable] at hr'
  subst hr'
  have hsize : r.funcs.entries.size = base.funcs.size + done.length := h.size
  have hget : ∀ i, (r.funcs.entries.push f)[i]? =
      if i = base.funcs.size + done.length then some f else r.funcs.get? i := by
    intro i
    rw [Array.getElem?_push, hsize]
    rfl
  refine ⟨h.natives, ?_, ?_, ?_, ?_⟩
  · simp only [Table.size, Array.size_push, List.length_append, List.length_singleton] at hsize ⊢
    omega
  · intro key
    change (r.funcs.ids.insert ⟨package, f.name⟩ r.funcs.size)[key]? = _
    rw [Std.HashMap.getElem?_insert, h.ids, List.findIdx?_append, h.size]
    by_cases he : (⟨package, f.name⟩ : Key) = key
    · subst he
      simp [hname, findIdx?_eq_none hnew]
    · rw [if_neg (by simpa using he)]
      by_cases hq : key.qualifier = package
      · have hne : decl.name ≠ key.name := by
          intro hk
          apply he
          rw [hname, hk, ← hq]
        simp [hne]
      · rw [if_neg hq, if_neg hq]
  · intro i hi
    simp only [Table.get?]
    rw [hget, if_neg (by omega)]
    exact h.old i hi
  · intro i d hi
    simp only [Table.get?]
    rw [hget]
    by_cases hlast : i = done.length
    · subst hlast
      rw [List.getElem?_concat_length] at hi
      cases hi
      exact ⟨f, if_pos rfl, hsig⟩
    · have hlt : i < done.length := by
        have := lt_length_of_getElem? hi
        rw [List.length_append, List.length_singleton] at this
        omega
      rw [List.getElem?_append_left hlt] at hi
      rw [if_neg (by omega)]
      exact h.sig hi

/-- A function that is known already stays in its place. -/
theorem Holds.set (h : base.Holds package decls r) {i : Nat} (hdecl : decls[i]? = some decl)
    (hi : decls.findIdx? (·.name = decl.name) = some i) (hname : f.name = decl.name)
    (hsig : f.sig = (headOf decl).1) (hadd : r.addFunc package f = (r', some id)) :
    base.Holds package decls r' ∧ id = base.funcs.size + i ∧
      ∀ j, r'.funcs.get? j = if j = base.funcs.size + i then some f else r.funcs.get? j := by
  have hids : r.funcs.ids[(⟨package, f.name⟩ : Key)]? = some (base.funcs.size + i) := by
    rw [h.ids, if_pos rfl, hname, hi]
    rfl
  have htable := Table.add_of_known (a := f) hids
  simp only [addFunc, htable, Prod.mk.injEq, Option.some.injEq] at hadd
  obtain ⟨rfl, rfl⟩ := hadd
  have hsize : r.funcs.entries.size = base.funcs.size + decls.length := h.size
  have hlt := lt_length_of_getElem? hdecl
  have hget : ∀ j, (r.funcs.entries.setIfInBounds (base.funcs.size + i) f)[j]? =
      if j = base.funcs.size + i then some f else r.funcs.get? j := by
    intro j
    rw [Array.getElem?_setIfInBounds]
    by_cases hj : base.funcs.size + i = j
    · rw [if_pos hj, if_pos hj.symm, if_pos (by omega)]
    · rw [if_neg hj, if_neg (Ne.symm hj)]
      rfl
  refine ⟨⟨h.natives, ?_, h.ids, ?_, ?_⟩, rfl, hget⟩
  · simpa [Table.size] using hsize
  · intro j hj
    simp only [Table.get?]
    rw [hget, if_neg (by omega)]
    exact h.old j hj
  · intro j d hd
    simp only [Table.get?]
    rw [hget]
    by_cases hj : j = i
    · subst hj
      rw [hdecl] at hd
      cases hd
      exact ⟨f, if_pos rfl, hsig⟩
    · rw [if_neg (by omega)]
      exact h.sig hd

variable {make : Registry → GoSift.Func → Except FilterError Func} {ids : List Nat}

/-- The first time, functions get places one behind the other. -/
theorem Holds.registerAll_new (hmake : Faithful make) (h : base.Holds package done r) (hb : r.Built)
    (hd : ((done ++ decls).map (·.name)).Nodup)
    (hreg : registerAll package make r decls = (r', .ok ids)) :
    base.Holds package (done ++ decls) r' ∧ r'.Built := by
  induction decls generalizing r done ids with
  | nil =>
    cases hreg
    rw [List.append_nil]
    exact ⟨h, hb⟩
  | cons decl decls ih =>
    obtain ⟨f, r₁, id, rest, hf, hadd, hrest, rfl⟩ := registerAll_cons_eq_ok hreg
    obtain ⟨hname, hsig⟩ := hmake hf
    have hnew : decl.name ∉ done.map (·.name) := by
      simp only [List.map_append, List.map_cons] at hd
      exact fun hm => (List.nodup_append.mp hd).2.2 _ hm _ List.mem_cons_self rfl
    rw [List.append_cons] at hd ⊢
    exact ih (h.push hnew hname hsig hadd) (hb.of_addFunc hadd) hd hrest

/-- The second time, each function is put into the place that it has. -/
theorem Holds.registerAll_again {all : List GoSift.Func} (hmake : Faithful make)
    (h : base.Holds package all r) (hb : r.Built) (hall : all = done ++ decls)
    (hd : (all.map (·.name)).Nodup) (hreg : registerAll package make r decls = (r', .ok ids)) :
    base.Holds package all r' ∧ r'.Built ∧
      ids = List.range' (base.funcs.size + done.length) decls.length ∧
      (∀ i < base.funcs.size + done.length, r'.funcs.get? i = r.funcs.get? i) ∧
      ∀ i decl, decls[i]? = some decl → ∃ known f, base.Holds package all known ∧ known.Built ∧
        make known decl = .ok f ∧ r'.funcs.get? (base.funcs.size + done.length + i) = some f := by
  induction decls generalizing r done ids with
  | nil =>
    cases hreg
    exact ⟨h, hb, rfl, fun _ _ => rfl, fun i decl hi => by cases hi⟩
  | cons decl decls ih =>
    obtain ⟨f, r₁, id, rest, hf, hadd, hrest, rfl⟩ := registerAll_cons_eq_ok hreg
    obtain ⟨hname, hsig⟩ := hmake hf
    have hplace : all[done.length]? = some decl := by
      rw [hall, List.getElem?_append_right (Nat.le_refl _)]
      simp
    have hnew : decl.name ∉ done.map (·.name) := by
      rw [hall, List.map_append, List.map_cons] at hd
      exact fun hm => (List.nodup_append.mp hd).2.2 _ hm _ List.mem_cons_self rfl
    have hindex : all.findIdx? (·.name = decl.name) = some done.length := by
      rw [hall, List.findIdx?_append, findIdx?_eq_none hnew, List.findIdx?_cons]
      simp
    obtain ⟨hknown, rfl, hget⟩ := h.set hplace hindex hname hsig hadd
    rw [List.append_cons] at hall
    obtain ⟨hlast, hlastb, hids, hbefore, hafter⟩ := ih hknown (hb.of_addFunc hadd) hall hrest
    rw [List.length_append, List.length_singleton, ← Nat.add_assoc] at hids hbefore hafter
    refine ⟨hlast, hlastb, ?_, ?_, ?_⟩
    · rw [hids, List.length_cons, List.range'_succ]
    · intro i hi
      rw [hbefore i (by omega), hget, if_neg (by omega)]
    · intro i d hi
      cases i with
      | zero =>
        cases hi
        refine ⟨r, f, h, hb, hf, ?_⟩
        rw [Nat.add_zero, hbefore _ (by omega), hget, if_pos rfl]
      | succ i =>
        obtain ⟨known, f', hk, hkb, hf', hget'⟩ := hafter i d hi
        exact ⟨known, f', hk, hkb, hf', by rw [← hget']; congr 1; omega⟩

end Registry

theorem headOf_eq {sig : Signature} {params : List (String × Ty)}
    (h : signatureOf decl = .ok (sig, params)) : headOf decl = (sig, params) := by
  rw [headOf, h]
  rfl

theorem faithful_compileFunc : Faithful fun r => compileFunc r package := by
  intro r decl f h
  obtain ⟨sig, params, body, code, scope, hc, rfl⟩ := compileFunc_eq_ok h
  rw [headOf_eq hc.signature]
  exact ⟨rfl, rfl⟩

theorem faithful_stub : Faithful fun _ decl => do
    return .stub decl.name (← signatureOf decl).1 := by
  intro r decl f h
  dsimp only at h
  cases hs : signatureOf decl with
  | error e =>
    rw [hs] at h
    cases h
  | ok head =>
    rw [hs] at h
    cases h
    rw [headOf_eq hs]
    exact ⟨rfl, rfl⟩

/-- Each declaration of a package is compiled and lies in its place behind `base`. -/
structure Registry.Links (base : Registry) (package : String) (decls : List GoSift.Func)
    (r : Registry) : Prop where
  holds : base.Holds package decls r
  built : r.Built
  func : ∀ {i : Nat} {decl : GoSift.Func}, decls[i]? = some decl →
    ∃ known f, base.Holds package decls known ∧ known.Built ∧
      compileFunc known package decl = .ok f ∧ r.funcs.get? (base.funcs.size + i) = some f

/-- Compiling a package that is new links its declarations, in their order. -/
theorem Registry.links_of_compilePackage {decls : List GoSift.Func} {ids : List Nat} (hb : r.Built)
    (hnew : r.Lacks package) (hd : (decls.map (·.name)).Nodup)
    (h : compilePackage r package decls = (r', .ok ids)) :
    r.Links package decls r' ∧ ids = List.range' r.funcs.size decls.length := by
  unfold compilePackage at h
  dsimp only at h
  split at h
  · cases h
  · next r₁ stubs hstubs =>
    obtain ⟨hfirst, hfirstb⟩ := hnew.holds.registerAll_new faithful_stub hb hd hstubs
    rw [List.nil_append] at hfirst
    obtain ⟨hlast, hlastb, hids, -, hfunc⟩ :=
      hfirst.registerAll_again faithful_compileFunc hfirstb (List.nil_append decls).symm hd h
    exact ⟨⟨hlast, hlastb, fun hi => hfunc _ _ hi⟩, hids⟩

theorem Program.known_of_holds {P : Program} {base known : Registry} (hnatives : base.natives = P.natives)
    (hfuncs : base.funcs = {}) (h : base.Holds P.package P.decls known) : P.Known known := by
  have hsize : base.funcs.size = 0 := by
    rw [hfuncs]
    rfl
  refine ⟨h.natives.trans hnatives, ?_, ?_, ?_⟩
  · rw [h.size, hsize, Nat.zero_add]
  · intro key
    rw [h.ids, hsize, hfuncs]
    change (if _ then _ else (∅ : Std.HashMap Key Nat)[key]?) = _
    rw [Std.HashMap.getElem?_empty]
    simp
  · intro i decl hi
    simpa [hsize] using h.sig hi

/-- Compiling a package with nothing but natives before it links the program of its declarations. -/
theorem Program.linked_of_compilePackage {P : Program} {ids : List Nat} (hb : r.Built)
    (hnatives : r.natives = P.natives) (hfuncs : r.funcs = {}) (hd : (P.decls.map (·.name)).Nodup)
    (h : compilePackage r P.package P.decls = (r', .ok ids)) :
    P.Linked r' ∧ ids = List.range P.decls.length := by
  have hsize : r.funcs.size = 0 := by
    rw [hfuncs]
    rfl
  have hnew : r.Lacks P.package := by
    intro key _
    rw [hfuncs]
    exact Std.HashMap.getElem?_empty
  obtain ⟨hlinks, hids⟩ := Registry.links_of_compilePackage hb hnew hd h
  rw [hsize] at hids
  refine ⟨⟨hlinks.holds.natives.trans hnatives, ?_, ?_⟩, ?_⟩
  · rw [hlinks.holds.size, hsize, Nat.zero_add]
  · intro i decl hi
    obtain ⟨known, f, hk, hkb, hf, hget⟩ := hlinks.func hi
    rw [hsize, Nat.zero_add] at hget
    exact ⟨known, f, P.known_of_holds hnatives hfuncs hk, hkb, hf, hget⟩
  · rw [hids, List.range_eq_range']

end

end GoSift.Filter
