import GoSift.Proofs.Filter.Correctness
import GoSift.Proofs.Filter.Declared
import GoSift.Proofs.Filter.Packages
import GoSift.Proofs.Filter.Relocation
import Mathlib.Logic.Equiv.Defs

/-!
The order of declarations. It decides by which numbers the functions of a package are called and nothing
else: whether the package can be compiled, what its functions are apart from these numbers, and what they
do is the same for every order.
-/
namespace GoSift.Filter

/-! ### Numbers -/

namespace Table

variable {α : Type} {t t' : Table α} {ρ σ : ℕ → ℕ}

/-- Keys have their numbers in `t'` by a renumbering of those in `t`, which leaves numbers alone that are
not in use. -/
def Renumbers (ρ : ℕ → ℕ) (t t' : Table α) : Prop :=
  ∀ id, (∀ key : Key, t.ids[key]? = some id → t'.ids[key]? = some (ρ id)) ∧ (t.size ≤ id → ρ id = id)

theorem Numbered.exists_renumbers (h : t.Numbered)
    (hkeys : ∀ key : Key, t.ids[key]? ≠ none → t'.ids[key]? ≠ none) : ∃ ρ, Renumbers ρ t t' := by
  have hone : ∀ id, ∃ id', (∀ key : Key, t.ids[key]? = some id → t'.ids[key]? = some id') ∧
      (t.size ≤ id → id' = id) := by
    intro id
    by_cases hid : id < t.size
    · obtain ⟨key, hkey⟩ := h.covered hid
      obtain ⟨id', hid'⟩ := Option.ne_none_iff_exists'.mp (hkeys key (by rw [hkey]; nofun))
      refine ⟨id', fun key' hkey' => ?_, fun hle => absurd hid (Nat.not_lt.mpr hle)⟩
      rw [h.inj hkey' hkey, hid']
    · exact ⟨id, fun key hkey => absurd (h.lt hkey) hid, fun _ => rfl⟩
  choose ρ hρ using hone
  exact ⟨ρ, hρ⟩

theorem Renumbers.leftInverse (hρ : Renumbers ρ t t') (hσ : Renumbers σ t' t) (h : t.Numbered)
    (hsize : t'.size = t.size) : Function.LeftInverse σ ρ := by
  intro id
  by_cases hid : id < t.size
  · obtain ⟨key, hkey⟩ := h.covered hid
    have hback := (hσ (ρ id)).1 key ((hρ id).1 key hkey)
    exact Option.some.inj (hback.symm.trans hkey)
  · have hle := Nat.not_lt.mp hid
    rw [(hρ id).2 hle, (hσ id).2 (hsize.trans_le hle)]

/-- Two tables with the same keys differ by a permutation of their numbers. -/
theorem Numbered.exists_perm (h : t.Numbered) (h' : t'.Numbered) (hsize : t'.size = t.size)
    (hkeys : ∀ key : Key, t.ids[key]? = none ↔ t'.ids[key]? = none) :
    ∃ ρ : Equiv.Perm ℕ, ∀ key : Key, t'.ids[key]? = (t.ids[key]?).map ρ := by
  obtain ⟨ρ, hρ⟩ := h.exists_renumbers fun key => (hkeys key).not.mp
  obtain ⟨σ, hσ⟩ := h'.exists_renumbers fun key => (hkeys key).not.mpr
  refine ⟨⟨ρ, σ, hρ.leftInverse hσ h hsize, hσ.leftInverse hρ h' hsize.symm⟩, fun key => ?_⟩
  cases hkey : t.ids[key]? with
  | none => exact (hkeys key).mp hkey
  | some id => exact (hρ id).1 key hkey

end Table

/-! ### Functions up to the numbers of their calls -/

/-- Functions that are equal but for the numbers of the functions they call: they have the same
instructions at the same places, and the same bytes except in the operands of calls. -/
structure Func.Renamed (ρ : ℕ → ℕ) (f g : Func) : Prop where
  name : g.name = f.name
  sig : g.sig = f.sig
  constants : g.constants = f.constants
  numParams : g.numParams = f.numParams
  numLocals : g.numLocals = f.numLocals
  code : ∃ instrs, Decoded f 0 instrs ∧ Decoded g 0 instrs ∧
    (∀ pc, (pc, .call) ∈ instrs →
      ∃ id, (f.at pc).word? = some id ∧ (g.at pc).word? = some (ρ id)) ∧
    ∀ k, (∀ pc, (pc, .call) ∈ instrs → k ≠ pc + 1 ∧ k ≠ pc + 2) → g.code[k]? = f.code[k]?

section

variable {ρ : ℕ → ℕ}

theorem Instr.bytes_renamed_getElem? {i : Instr} {k : ℕ} (h : i.opcode = .call → k ≠ 1 ∧ k ≠ 2) :
    (i.renamed ρ).bytes[k]? = i.bytes[k]? := by
  unfold renamed
  split
  · next id =>
    obtain ⟨h₁, h₂⟩ := h rfl
    match k with
    | 0 => rfl
    | 1 => exact absurd rfl h₁
    | 2 => exact absurd rfl h₂
    | k + 3 => rfl
  · rfl

theorem Code.bytes_renamed_getElem? {code : Code} (pc : ℕ) {k : ℕ}
    (h : ∀ x ∈ code.located pc, x.2.opcode = .call → pc + k ≠ x.1 + 1 ∧ pc + k ≠ x.1 + 2) :
    ((code.renamed ρ).flatMap Instr.bytes)[k]? = (code.flatMap Instr.bytes)[k]? := by
  induction code generalizing pc k with
  | nil => rfl
  | cons i code ih =>
    rw [located, List.forall_mem_cons] at h
    obtain ⟨hi, hcode⟩ := h
    rw [renamed_cons, List.flatMap_cons, List.flatMap_cons, List.getElem?_append,
      List.getElem?_append, Instr.length_bytes, Instr.length_bytes, Instr.size_renamed]
    split
    · refine Instr.bytes_renamed_getElem? fun hop => ?_
      obtain ⟨h₁, h₂⟩ := hi hop
      constructor <;> omega
    · next hk =>
      apply ih (pc + i.size)
      intro x hx hop
      obtain ⟨h₁, h₂⟩ := hcode x hx hop
      constructor <;> omega

end

section

variable {ρ : ℕ → ℕ} {known known' : Registry} {package : String} {decl : GoSift.Func}
  {sig : Signature} {params : List (String × Ty)} {body : List Stmt} {code : Code} {scope : Scope}

theorem Compiles.renamed (h : Compiles known package decl sig params body code scope)
    (hb : known.Built) (h' : Compiles known' package decl sig params body (code.renamed ρ) scope)
    (hb' : known'.Built) :
    (assemble decl sig code scope).Renamed ρ (assemble decl sig (code.renamed ρ) scope) := by
  have hcode : CodeAt (assemble decl sig code scope) 0 0 0 code := h.codeAt hb
  have hcode' : CodeAt (assemble decl sig (code.renamed ρ) scope) 0 0 0 (code.renamed ρ) :=
    h'.codeAt hb'
  have hdecoded := hcode'.decoded (by rw [size_assemble, Nat.zero_add])
  rw [Code.located_renamed, List.map_map] at hdecoded
  simp only [Function.comp_def, Instr.opcode_renamed] at hdecoded
  refine ⟨rfl, rfl, rfl, rfl, rfl, _, hcode.decoded (by rw [size_assemble, Nat.zero_add]), hdecoded,
    fun pc hpc => ?_, fun k hk => ?_⟩
  · obtain ⟨⟨p, i⟩, hi, he⟩ := List.mem_map.mp hpc
    obtain ⟨rfl, hop⟩ := Prod.mk.inj he
    obtain ⟨id, -, rfl⟩ := (h.refers hi).form.2.2.2 hop
    have hi' : (p, (Instr.numbered .call id).renamed ρ) ∈ (code.renamed ρ).located 0 := by
      rw [Code.located_renamed]
      exact List.mem_map_of_mem hi
    exact ⟨id, (hcode.located _ hi).2.2, (hcode'.located _ hi').2.2⟩
  · simp only [assemble, Code.bytes, List.getElem?_toArray]
    apply Code.bytes_renamed_getElem? 0
    intro x hx hop
    have hmem : (x.1, Opcode.call) ∈ (code.located 0).map fun x => (x.1, x.2.opcode) :=
      List.mem_map.mpr ⟨x, hx, by rw [hop]⟩
    rw [Nat.zero_add]
    exact hk x.1 hmem

/-- A function that can be compiled with other numbers for what it calls differs by them only, and does
the same. -/
theorem compileFunc_renamed {f : Func} (hb : known.Built) (hb' : known'.Built)
    (h : known.Resolves ρ package known') (hf : compileFunc known package decl = .ok f) :
    ∃ g places, compileFunc known' package decl = .ok g ∧ f.Alike ρ known.funcs.size places g ∧
      f.Renamed ρ g := by
  obtain ⟨_, _, _, _, _, hc, hc', rfl⟩ := exists_compiles_renamed (h.renames decl.name) hf
  exact ⟨_, _, hc'.compileFunc_eq, hc.alike hb hc' hb', hc.renamed hb hc' hb'⟩

theorem Func.Alike.mono {count count' : ℕ} {places : List ℕ} {f g : Func}
    (h : f.Alike ρ count places g) (hle : count ≤ count') : f.Alike ρ count' places g :=
  { h with
    call := fun hpc hop => by
      obtain ⟨id, hid, hwords⟩ := h.call hpc hop
      exact ⟨id, hid.trans_le hle, hwords⟩ }

end

/-! ### Packages in two orders -/

namespace Registry

variable {base known known' r r' : Registry} {package : String} {decls decls' : List GoSift.Func}
  {ρ : ℕ → ℕ}

/-- A key belongs to a declaration of the package or to none. -/
theorem declared_or_other (package : String) (decls : List GoSift.Func) (key : Key) :
    (∃ decl ∈ decls, key = ⟨package, decl.name⟩) ∨ ∀ decl ∈ decls, key ≠ ⟨package, decl.name⟩ := by
  by_cases h : ∃ decl ∈ decls, key = ⟨package, decl.name⟩
  · exact Or.inl h
  · exact Or.inr fun decl hdecl he => h ⟨decl, hdecl, he⟩

/-- What no declaration has as its number is what it was. -/
theorem Declares.get?_other (h : base.Declares package decls r) {key : Key} {id : ℕ}
    (hkey : ∀ decl ∈ decls, key ≠ ⟨package, decl.name⟩) (hid : r.funcs.ids[key]? = some id) :
    r.funcs.get? id = base.funcs.get? id :=
  h.old fun decl hdecl he => hkey decl hdecl (h.built.numbered.inj hid he)

/-- Two registries that declare a package know the same names. -/
theorem Declares.ids_eq_none_iff (h : base.Declares package decls known)
    (h' : base.Declares package decls known') (key : Key) :
    known.funcs.ids[key]? = none ↔ known'.funcs.ids[key]? = none := by
  obtain ⟨decl, hdecl, rfl⟩ | hother := declared_or_other package decls key
  · obtain ⟨id, hid⟩ := h.ids_known hdecl
    obtain ⟨id', hid'⟩ := h'.ids_known hdecl
    rw [hid, hid']
    exact ⟨nofun, nofun⟩
  · rw [h.other hother, h'.other hother]

theorem Declares.exists_perm (h : base.Declares package decls known)
    (h' : base.Declares package decls known') :
    ∃ ρ : Equiv.Perm ℕ, ∀ key : Key, known'.funcs.ids[key]? = (known.funcs.ids[key]?).map ρ :=
  h.built.numbered.exists_perm h'.built.numbered (h'.size.trans h.size.symm) (h.ids_eq_none_iff h')

section

variable (h : base.Declares package decls known) (h' : base.Declares package decls known')
  (hρ : ∀ key : Key, known'.funcs.ids[key]? = (known.funcs.ids[key]?).map ρ)
include h h' hρ

/-- The functions that were there before keep their numbers. -/
theorem Declares.fixes (hb : base.Built) {id : ℕ} (hid : id < base.funcs.size) : ρ id = id := by
  obtain ⟨key, hkey⟩ := hb.numbered.covered hid
  have hmap := hρ key
  rw [h.kept hkey, h'.kept hkey] at hmap
  exact (Option.some.inj hmap).symm

/-- What is found by its name in one registry is found in the other, with the same signature. -/
theorem Declares.resolves : known.Resolves ρ package known' where
  natives := h'.natives.trans h.natives.symm
  found {qualifier name id f} hf := by
    obtain ⟨hid, hget⟩ := Table.lookup?_eq_some_iff.mp hf
    have hid' : known'.funcs.ids[(⟨qualifier, name⟩ : Key)]? = some (ρ id) := by rw [hρ, hid]; rfl
    obtain ⟨decl, hdecl, he⟩ | hother := declared_or_other package decls ⟨qualifier, name⟩
    · cases he
      obtain ⟨i, f₁, hf₁, hsig⟩ := h.known hdecl
      obtain ⟨i', g, hg, hsig'⟩ := h'.known hdecl
      obtain ⟨rfl, rfl⟩ := Prod.mk.inj (Option.some.inj (hf₁.symm.trans hf))
      obtain rfl : i' = ρ i :=
        Option.some.inj ((Table.lookup?_eq_some_iff.mp hg).1.symm.trans hid')
      exact ⟨g, hg, hsig'.trans hsig.symm⟩
    · have hsame : ρ id = id := by
        rw [h'.other hother, ← h.other hother, hid] at hid'
        exact (Option.some.inj hid').symm
      refine ⟨f, Table.lookup?_eq_some_iff.mpr ⟨hid', ?_⟩, rfl⟩
      rw [h'.get?_other hother hid', hsame, ← h.get?_other hother hid, hget]
  missing {name} hnone := by
    have hids : known.funcs.ids[(⟨package, name⟩ : Key)]? = none := by
      by_contra hne
      obtain ⟨id, hid⟩ := Option.ne_none_iff_exists'.mp hne
      have hlt : id < known.funcs.entries.size := h.built.numbered.lt hid
      have hget : known.funcs.get? id = some known.funcs.entries[id] := Array.getElem?_eq_getElem hlt
      rw [lookupFunc?, Table.lookup?_eq_some_iff.mpr ⟨hid, hget⟩] at hnone
      cases hnone
    rw [lookupFunc?, Table.lookup?, hρ, hids]
    rfl

end

/-- A function that was there before calls only functions whose numbers stay. -/
theorem Origin.renamed {f : Func} (h : base.Origin f) (hfix : ∀ id < base.funcs.size, ρ id = id) :
    ∃ places, f.Alike ρ base.funcs.size places f ∧ f.Renamed ρ f := by
  obtain ⟨known, package, decl, hb, hle, hf⟩ := h
  have hself : known.Resolves ρ package known :=
    { natives := rfl
      found := fun {qualifier name id g} hg => by
        have hlt := hb.numbered.lt (Table.lookup?_eq_some_iff.mp hg).1
        exact ⟨g, by rw [hfix id (hlt.trans_le hle)]; exact hg, rfl⟩
      missing := fun hnone => hnone }
  obtain ⟨g, places, hg, halike, hrenamed⟩ := compileFunc_renamed hb hb hself hf
  obtain rfl := Except.ok.inj (hg.symm.trans hf)
  exact ⟨places, halike.mono hle, hrenamed⟩

/-- A package that was compiled in two orders has functions that differ by the numbers of their calls. -/
theorem Declares.renamed (hbase : base.Assembled) (h : base.Declares package decls r)
    (hplaced : base.Placed package decls decls r) (h' : base.Declares package decls r')
    (hplaced' : base.Placed package decls decls r')
    (hρ : ∀ key : Key, r'.funcs.ids[key]? = (r.funcs.ids[key]?).map ρ) {id : ℕ} {f : Func}
    (hf : r.funcs.get? id = some f) :
    ∃ g places, r'.funcs.get? (ρ id) = some g ∧ f.Alike ρ r.funcs.size places g ∧
      f.Renamed ρ g := by
  obtain ⟨hb, horigin⟩ := hbase.origin
  obtain ⟨key, hkey⟩ := h.built.numbered.covered (lt_size_of_get? hf)
  have hkey' : r'.funcs.ids[key]? = some (ρ id) := by rw [hρ, hkey]; rfl
  obtain ⟨decl, hdecl, rfl⟩ | hother := declared_or_other package decls key
  · obtain ⟨known, i, f₁, hknown, hids, hf₁, hi, hget⟩ := hplaced hdecl
    obtain ⟨known', i', g, hknown', hids', hg, hi', hget'⟩ := hplaced' hdecl
    obtain rfl := Option.some.inj (hi.symm.trans hkey)
    obtain rfl := Option.some.inj (hi'.symm.trans hkey')
    obtain rfl := Option.some.inj (hget.symm.trans hf)
    have hresolves := hknown.resolves hknown' fun key => by rw [← hids', hρ, hids]
    obtain ⟨g₁, places, hg₁, halike, hrenamed⟩ :=
      compileFunc_renamed hknown.built hknown'.built hresolves hf₁
    obtain rfl := Except.ok.inj (hg₁.symm.trans hg)
    exact ⟨_, places, hget', halike.mono (hknown.size.trans h.size.symm).le, hrenamed⟩
  · have hold : base.funcs.get? id = some f := (h.get?_other hother hkey).symm.trans hf
    have hfix : ∀ id < base.funcs.size, ρ id = id := fun _ hid => h.fixes h' hρ hb hid
    have hid : ρ id = id := hfix id (lt_size_of_get? hold)
    obtain ⟨places, halike, hrenamed⟩ := (horigin hold).renamed hfix
    have hle : base.funcs.size ≤ r.funcs.size := h.size ▸ Nat.le_add_right _ _
    refine ⟨f, places, ?_, halike.mono hle, hrenamed⟩
    rw [h'.get?_other hother hkey', hid, hold]

/-- A package that can be compiled can be compiled in every order. -/
theorem exists_compilePackage_perm (hb : base.Built) (hd : (decls.map (·.name)).Nodup)
    (hperm : decls.Perm decls') {ids : List ℕ}
    (hc : compilePackage base package decls = (r, .ok ids)) :
    ∃ r' ids', compilePackage base package decls' = (r', .ok ids') := by
  obtain ⟨h, hplaced, -, hheads⟩ := declares_of_compilePackage hb hd hc
  have hsize : base.funcs.size + base.newCount package decls' ≤ Table.capacity := by
    rw [← (h.perm hperm).size]
    exact h.built.size_le.2
  refine exists_compilePackage hb ((hperm.map _).nodup_iff.mp hd)
    (fun decl hdecl => hheads decl (hperm.mem_iff.mpr hdecl)) hsize fun known' hknown' decl hdecl => ?_
  obtain ⟨known, id, f, hknown, -, hf, -⟩ := hplaced (hperm.mem_iff.mpr hdecl)
  have hknown' := hknown'.perm hperm.symm
  obtain ⟨ρ, hρ⟩ := hknown.exists_perm hknown'
  obtain ⟨g, -, hg, -⟩ :=
    compileFunc_renamed hknown.built hknown'.built (hknown.resolves hknown' hρ) hf
  exact ⟨g, hg⟩

end Registry

open Registry in
/-- The order of declarations with different names does not matter. A package can be compiled in all
orders or in none. In two orders the names are known by numbers that differ by a permutation, which leaves
the functions alone that were there before; each function is the same up to these numbers in its calls, and
it runs alike on all arguments, with the same result, stack and calls of natives. -/
theorem compilePackage_perm {base : Registry} (hbase : base.Assembled) (package : String)
    {decls decls' : List GoSift.Func} (hd : (decls.map (·.name)).Nodup) (hperm : decls.Perm decls') :
    ((∃ r ids, compilePackage base package decls = (r, .ok ids)) ↔
      ∃ r' ids', compilePackage base package decls' = (r', .ok ids')) ∧
    ∀ r ids r' ids', compilePackage base package decls = (r, .ok ids) →
      compilePackage base package decls' = (r', .ok ids') →
      ids.map some = decls.map (fun decl => r.funcs.ids[(⟨package, decl.name⟩ : Key)]?) ∧
      ids'.map some = decls'.map (fun decl => r'.funcs.ids[(⟨package, decl.name⟩ : Key)]?) ∧
      ∃ ρ : Equiv.Perm ℕ, (∀ key : Key, r'.funcs.ids[key]? = (r.funcs.ids[key]?).map ρ) ∧
        (∀ id < base.funcs.size, ρ id = id) ∧
        ∀ id f, r.funcs.get? id = some f → ∃ g, r'.funcs.get? (ρ id) = some g ∧ f.Renamed ρ g ∧
          (∀ args stack fuel,
            (State.start g args stack).run r' fuel = (State.start f args stack).run r fuel) ∧
          ∀ args stack, g.eval r' args stack = f.eval r args stack := by
  obtain ⟨hb, -⟩ := hbase.origin
  have hd' : (decls'.map (·.name)).Nodup := (hperm.map _).nodup_iff.mp hd
  refine ⟨⟨?_, ?_⟩, fun r ids r' ids' hc hc' => ?_⟩
  · rintro ⟨r, ids, hc⟩
    exact exists_compilePackage_perm hb hd hperm hc
  · rintro ⟨r', ids', hc'⟩
    exact exists_compilePackage_perm hb hd' hperm.symm hc'
  obtain ⟨h, hplaced, hids, -⟩ := declares_of_compilePackage hb hd hc
  obtain ⟨h', hplaced', hids', -⟩ := declares_of_compilePackage hb hd' hc'
  refine ⟨hids, hids', ?_⟩
  have h' := h'.perm hperm.symm
  have hplaced' := hplaced'.perm hperm.symm hperm.subset
  obtain ⟨ρ, hρ⟩ := h.exists_perm h'
  have hall : ∀ {id f}, r.funcs.get? id = some f → ∃ g places, r'.funcs.get? (ρ id) = some g ∧
      f.Alike ρ r.funcs.size places g ∧ f.Renamed ρ g :=
    fun hf => h.renamed hbase hplaced h' hplaced' hρ hf
  have hrenames : r.Renames ρ r' :=
    { natives := h'.natives.trans h.natives.symm
      funcs := fun id hid => by
        obtain ⟨g, places, hg, halike, -⟩ := hall (Array.getElem?_eq_getElem hid)
        exact ⟨_, g, places, Array.getElem?_eq_getElem hid, hg, halike⟩ }
  refine ⟨ρ, hρ, fun id hid => h.fixes h' hρ hb hid, fun id f hf => ?_⟩
  obtain ⟨g, places, hg, halike, hrenamed⟩ := hall hf
  refine ⟨g, hg, hrenamed, fun args stack fuel => ?_, halike.eval_eq hrenames⟩
  exact State.Alike.run_eq hrenames (.mk (.enter halike args) .nil) fuel

/-- `func name(n int) bool { return callee(n) }` -/
def delegating (name callee : String) : GoSift.Func :=
  let p : Position := default
  let n : Expr := .ident p "n"
  { pos := p
    recv := none
    name := name
    params := [.mk p [n] (.ident p "int")]
    results := [.mk p [] (.ident p "bool")]
    body := some (.block p [.ret p [.call p (.ident p callee) [n] false]]) }

/-- A package with a function that is declared anew later, and one that calls it. -/
def olderParity : List GoSift.Func :=
  [countDown "odd" "odd" false, delegating "single" "odd"]

/-- Functions that call each other. One of them is known already, and two are new. -/
def parity : List GoSift.Func :=
  [countDown "even" "odd" true, countDown "odd" "even" false, delegating "check" "even"]

theorem parity_perm : ∃ base r r', compilePackage .empty "p" olderParity = (base, .ok [0, 1]) ∧
    base.Assembled ∧ (parity.map (·.name)).Nodup ∧
    compilePackage base "p" parity = (r, .ok [2, 0, 3]) ∧
    compilePackage base "p" parity.reverse = (r', .ok [2, 0, 3]) ∧
    ∃ ρ : Equiv.Perm ℕ, (∀ key : Key, r'.funcs.ids[key]? = (r.funcs.ids[key]?).map ρ) ∧
      (∀ id < base.funcs.size, ρ id = id) ∧
      ∀ id f, r.funcs.get? id = some f → ∃ g, r'.funcs.get? (ρ id) = some g ∧ f.Renamed ρ g ∧
        (∀ args stack fuel,
          (State.start g args stack).run r' fuel = (State.start f args stack).run r fuel) ∧
        ∀ args stack, g.eval r' args stack = f.eval r args stack := by
  have hbase : (compilePackage .empty "p" olderParity).2 = .ok [0, 1] := by cbv
  have hc : (compilePackage (compilePackage .empty "p" olderParity).1 "p" parity).2 =
      .ok [2, 0, 3] := by cbv
  have hc' : (compilePackage (compilePackage .empty "p" olderParity).1 "p" parity.reverse).2 =
      .ok [2, 0, 3] := by cbv
  have hpackage : ∀ {r : Registry} {decls : List GoSift.Func} {ids : List ℕ},
      (compilePackage r "p" decls).2 = .ok ids →
        compilePackage r "p" decls = ((compilePackage r "p" decls).1, .ok ids) := by
    intro r decls ids h
    rw [← h]
  have hassembled : (compilePackage .empty "p" olderParity).1.Assembled :=
    .package .empty "p" olderParity (hpackage hbase)
  have hd : (parity.map (·.name)).Nodup := by decide
  obtain ⟨-, hsame⟩ := compilePackage_perm hassembled "p" hd parity.reverse_perm.symm
  obtain ⟨-, -, hρ⟩ := hsame _ _ _ _ (hpackage hc) (hpackage hc')
  exact ⟨_, _, _, hpackage hbase, hassembled, hd, hpackage hc, hpackage hc', hρ⟩

end GoSift.Filter
