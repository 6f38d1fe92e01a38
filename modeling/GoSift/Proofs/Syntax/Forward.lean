import GoSift.Syntax.Parse

/-!
The cursor moves forward: what a parser leaves is a back part of the tokens it had, and where it fails
is one of them.
-/
namespace GoSift

namespace Cursor

/-- The tokens from the cursor on. -/
def tokens (c : Cursor) : List Token :=
  c.current :: c.rest

theorem tokens_next_suffix (c : Cursor) : c.next.tokens <:+ c.tokens := by
  unfold next
  split
  · exact List.suffix_refl _
  · split
    · exact List.suffix_refl _
    · next t ts h =>
      rw [tokens, tokens, h]
      exact List.suffix_cons _ _

theorem skipTokens_suffix {depth : Nat} {t : Token} {ts : List Token} :
    (skipTokens depth t ts).1 :: (skipTokens depth t ts).2 <:+ t :: ts := by
  induction ts generalizing depth t with
  | nil => exact List.suffix_refl _
  | cons u ts ih =>
    rw [skipTokens]
    split
    · exact List.suffix_refl _
    · exact ih.trans (List.suffix_cons _ _)

theorem tokens_skipDecl_suffix (c : Cursor) : c.skipDecl.tokens <:+ c.tokens :=
  skipTokens_suffix

end Cursor

theorem Parser.bind_eq_ok {α β : Type} {p : Parser α} {f : α → Parser β} {c c' : Cursor} {b : β} :
    (p >>= f) c = .ok b c' ↔ ∃ a c₁, p c = .ok a c₁ ∧ f a c₁ = .ok b c' := by
  change EStateM.bind p f c = _ ↔ _
  unfold EStateM.bind
  cases h : p c with
  | ok a c₁ =>
    refine ⟨fun hf => ⟨a, c₁, rfl, hf⟩, ?_⟩
    rintro ⟨_, _, ⟨⟩, hf⟩
    exact hf
  | error e c₁ =>
    refine ⟨fun hf => (by cases hf), ?_⟩
    rintro ⟨_, _, ⟨⟩, _⟩

/-- A parser that leaves a back part of the tokens, or fails at one of them. -/
class Parser.Forward {α : Type} (p : Parser α) : Prop where
  suffix : ∀ {c c' : Cursor} {a : α}, p c = .ok a c' → c'.tokens <:+ c.tokens
  blames : ∀ {c c' : Cursor} {e : ParseError}, p c = .error e c' → ∃ t ∈ c.tokens, e.range = t.range

namespace Parser

variable {α β : Type} {p : Parser α}

/-- A parser that never fails and leaves all tokens. -/
theorem Forward.of_ok {f : Cursor → α} {g : Cursor → Cursor} (hp : p = fun c => .ok (f c) (g c))
    (hg : ∀ c, (g c).tokens <:+ c.tokens) : Forward p := by
  subst hp
  refine ⟨?_, ?_⟩
  · rintro c _ _ ⟨⟩
    exact hg c
  · rintro _ _ _ ⟨⟩

instance : Forward current := .of_ok rfl fun _ => List.suffix_refl _

instance : Forward kind := .of_ok rfl fun _ => List.suffix_refl _

instance : Forward secondKind := .of_ok rfl fun _ => List.suffix_refl _

instance : Forward here := .of_ok rfl fun _ => List.suffix_refl _

instance : Forward level := .of_ok rfl fun _ => List.suffix_refl _

instance : Forward advance := .of_ok rfl Cursor.tokens_next_suffix

instance : Forward (modify Cursor.skipDecl : Parser PUnit) := .of_ok rfl Cursor.tokens_skipDecl_suffix

instance {a : α} : Forward (pure a : Parser α) := .of_ok rfl fun _ => List.suffix_refl _

instance {kind : Token.Kind} : Forward (eat kind) where
  suffix h := by
    unfold eat at h
    split at h <;> cases h
    · exact Cursor.tokens_next_suffix _
    · exact List.suffix_refl _
  blames h := by
    unfold eat at h
    split at h <;> cases h

instance {sym : Symbol} : Forward (eatSymbol sym) :=
  inferInstanceAs (Forward (eat _))

instance {kind : Token.Kind} : Forward (expect kind) where
  suffix h := by
    unfold expect at h
    split at h <;> cases h
    exact Cursor.tokens_next_suffix _
  blames h := by
    unfold expect at h
    split at h <;> cases h
    exact ⟨_, List.mem_cons_self, rfl⟩

instance {sym : Symbol} : Forward (expectSymbol sym) :=
  inferInstanceAs (Forward (expect _))

instance {word : Keyword} : Forward (expectKeyword word) :=
  inferInstanceAs (Forward (expect _))

instance : Forward stmtEnd where
  suffix h := by
    unfold stmtEnd at h
    split at h <;> cases h
    · exact Cursor.tokens_next_suffix _
    all_goals exact List.suffix_refl _
  blames h := by
    unfold stmtEnd at h
    split at h <;> cases h
    exact ⟨_, List.mem_cons_self, rfl⟩

instance : Forward finish where
  suffix h := by
    unfold finish at h
    split at h <;> cases h
    exact List.suffix_refl _
  blames h := by
    unfold finish at h
    split at h <;> cases h
    exact ⟨_, List.mem_cons_self, rfl⟩

theorem Forward.bind [Forward p] {f : α → Parser β} (hf : ∀ a, Forward (f a)) : Forward (p >>= f) where
  suffix h := by
    obtain ⟨a, c₁, ha, h⟩ := bind_eq_ok.mp h
    exact ((hf a).suffix h).trans (Forward.suffix ha)
  blames {c c' e} h := by
    change EStateM.bind p f c = _ at h
    simp only [EStateM.bind] at h
    split at h
    · next ha =>
      obtain ⟨t, ht, hrange⟩ := (hf _).blames h
      exact ⟨t, (Forward.suffix ha).subset ht, hrange⟩
    · next ha =>
      cases h
      exact Forward.blames ha

/-- A parser that takes a token and fails at it if it is not the one that was expected. -/
theorem Forward.advance {f : Token → Parser α}
    (hf : ∀ t, (∃ a, f t = Pure.pure a) ∨ ∃ what, f t = throw (.expected t what)) :
    Forward (Parser.advance >>= f) where
  suffix {c c' a} h := by
    change f c.current c.next = _ at h
    obtain ⟨_, hok⟩ | ⟨_, herror⟩ := hf c.current
    · cases (congrFun hok _).symm.trans h
      exact c.tokens_next_suffix
    · cases (congrFun herror _).symm.trans h
  blames {c c' e} h := by
    change f c.current c.next = _ at h
    obtain ⟨_, hok⟩ | ⟨_, herror⟩ := hf c.current
    · cases (congrFun hok _).symm.trans h
    · cases (congrFun herror _).symm.trans h
      exact ⟨_, List.mem_cons_self, rfl⟩

instance : Forward identName := by
  refine .advance fun t => ?_
  split
  · exact .inl ⟨_, rfl⟩
  · exact .inr ⟨_, rfl⟩

instance : Forward Grammar.branchLabel := by
  refine .bind fun k => ?_
  split
  · exact .bind fun _ => inferInstance
  · infer_instance

/-- The path of an import, behind its name. -/
def importPath (name : Option String) : Parser Import := do
  let t ← advance
  match t.kind with
  | .literal .string path => return ⟨name, path⟩
  | _ => throw (.expected t .importPath)

instance {name : Option String} : Forward (importPath name) := by
  refine .advance fun t => ?_
  split
  · exact .inl ⟨_, rfl⟩
  · exact .inr ⟨_, rfl⟩

instance : Forward Grammar.importSpec := by
  refine .bind fun k => ?_
  dsimp only
  split
  · exact .bind fun _ => .bind fun name => inferInstanceAs (Forward (importPath name))
  · exact .bind fun _ => .bind fun name => inferInstanceAs (Forward (importPath name))
  · exact .bind fun name => inferInstanceAs (Forward (importPath name))

end Parser

end GoSift
