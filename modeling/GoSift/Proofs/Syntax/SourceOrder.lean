import GoSift.Proofs.Outcome
import GoSift.Proofs.Syntax.Placed
import GoSift.Proofs.Token.Located

/-!
Going through a parsed file follows its source. Nodes start where tokens of the source start, and a node
that is visited later starts no earlier. So no part starts in front of the node it is a part of.
-/
namespace GoSift

open Position Node

namespace Token

/-- The tokens that stand in a source text, in their places. -/
def written (src : String) : List Token :=
  pieceTokens src.toList (Piece.split src.toList).1

theorem Filled.mem_or {inserted : Token → Prop} {ks ts : List Token} (h : Filled inserted ks ts)
    {t : Token} (ht : t ∈ ts) : t ∈ ks ∨ inserted t := by
  induction h with
  | nil => cases ht
  | keep _ ih =>
    rcases List.mem_cons.mp ht with rfl | ht
    · exact .inl List.mem_cons_self
    · exact (ih ht).imp_left (List.mem_cons_of_mem _)
  | insert hinserted _ ih =>
    rcases List.mem_cons.mp ht with rfl | ht
    · exact .inr hinserted
    · exact ih ht

/-- No line ends where a statement cannot end, so what is kept there is in the source. -/
theorem first_of_closeLines {I : Token → Prop} {eof : Range} {ts : List Token}
    (hI : ∀ t ∈ ts, t.kind ≠ .newLine → I t) {u : Token} {rest : List Token}
    (h : closeLines eof false ts = u :: rest) (hu : u.kind = .symbol .semiColon) : I u := by
  induction ts with
  | nil =>
    cases h
    cases hu
  | cons t ts ih =>
    obtain ⟨ht, hts⟩ := List.forall_mem_cons.mp hI
    rw [closeLines] at h
    split at h
    · exact ih hts h
    · next hk =>
      cases h
      exact ht hk

/-- Behind a colon no semicolon is put in. -/
theorem colon_closeLines {I : Token → Prop} {eof : Range} {ended : Bool} {ts : List Token}
    (hI : ∀ t ∈ ts, t.kind ≠ .newLine → I t) {t u : Token} {rest : List Token}
    (h : t :: u :: rest <:+ closeLines eof ended ts) (ht : t.kind = .symbol .colon)
    (hu : u.kind = .symbol .semiColon) : I u := by
  have hinserted : ∀ {r : Range} {us : List Token}, t :: u :: rest ≠ ⟨.symbol .semiColon, r⟩ :: us := by
    intro r us heq
    cases heq
    cases ht
  induction ts generalizing ended with
  | nil =>
    cases ended with
    | false =>
      have hlen := h.length_le
      simp [closeLines] at hlen
    | true =>
      rcases List.suffix_cons_iff.mp h with heq | h
      · exact (hinserted heq).elim
      · have hlen := h.length_le
        simp at hlen
  | cons v ts ih =>
    have hts := (List.forall_mem_cons.mp hI).2
    rw [closeLines] at h
    split at h
    · split at h
      · rcases List.suffix_cons_iff.mp h with heq | h
        · exact (hinserted heq).elim
        · exact ih hts h
      · exact ih hts h
    · rcases List.suffix_cons_iff.mp h with heq | h
      · obtain ⟨rfl, hrest⟩ := List.cons.inj heq
        rw [ht] at hrest
        exact first_of_closeLines hts hrest.symm hu
      · exact ih hts h

/-- No token ends in front of its start. -/
theorem start_upTo_stop {pieces : List (Piece × List Char)} {ended : Bool} {t : Token}
    (h : t ∈ closeLines (.point (.after .start (pieces.flatMap (·.2)))) ended (place .start pieces)) :
    t.start.upTo t.range.stop := by
  obtain ⟨front, middle, back, -, hrange⟩ := liesIn_of_closeLines h
  rw [Token.start, hrange]
  exact Position.not_after_before _ middle

theorem inOrder_of_tokenize {wildcards : Bool} {src : String} {tokens : List Token}
    (h : tokenize wildcards src = .ok tokens) :
    InOrder (fun t => t ∈ tokens ∧ t ∈ written src) tokens := by
  have hspelled := @Piece.spelled_of_splitWithin src.toList.length src.toList
  have hwhole := Piece.flatMap_splitWithin src.toList.length src.toList
  have hwritten : written src = pieceTokens src.toList (Piece.split src.toList).1 := rfl
  unfold tokenize at h
  unfold Piece.split at h hwritten
  generalize Piece.splitWithin src.toList.length src.toList = parts at h hspelled hwhole hwritten
  obtain ⟨pieces, unread⟩ := parts
  dsimp only at h hspelled hwhole hwritten
  cases unread with
  | cons => cases h
  | nil =>
    rw [List.append_nil] at hwhole
    rw [← hwhole, ← filter_place hspelled] at hwritten
    dsimp only at h
    split at h
    · cases h
    · cases h
      rw [hwritten]
      have hkept : ∀ t ∈ place .start pieces, t.kind ≠ .newLine →
          t ∈ (place .start pieces).filter (·.kind ≠ .newLine) :=
        fun t ht hk => List.mem_filter.mpr ⟨ht, by simpa using hk⟩
      refine ⟨?_, fun t ht hproper => ⟨ht, ?_⟩, fun t u rest hsuffix ht hu => ⟨?_, ?_⟩⟩
      · refine (pairwise_closeLines pieces false).imp_of_mem fun {t u} ht _ hprecedes => ?_
        have hstop : t.range.stop.upTo u.start := by
          simpa [Range.precedes, Position.upTo, Token.start] using hprecedes
        exact upTo_trans (start_upTo_stop ht) hstop
      · have hfilled (eof : Range) : Filled (fun t => t.kind.isProper = false)
            ((place .start pieces).filter (·.kind ≠ .newLine))
            (closeLines eof false (place .start pieces)) := by
          refine filled_closeLines ?_ ?_ (fun _ _ _ => ?_) false <;> rfl
        refine ((hfilled _).mem_or ht).resolve_right fun hnot => ?_
        rw [hproper] at hnot
        cases hnot
      · exact hsuffix.subset (List.mem_cons_of_mem _ List.mem_cons_self)
      · exact colon_closeLines hkept hsuffix ht hu

end Token

/-- What a parser gives for a text has places in the order of the tokens of the text. -/
theorem Parser.Trails.runText {α : Type} {p : Parser α} {wildcards : Bool} {src : String} {a : α}
    {f : α → List Position} (h : ∀ {I : Token → Prop} {t : Token}, p.Trails I t [] f)
    (ha : p.runText wildcards src = .ok a) :
    ∃ tokens, Token.tokenize wildcards src = .ok tokens ∧ (f a).Pairwise upTo ∧
      ∀ q ∈ f a, ∃ t ∈ tokens, t ∈ Token.written src ∧ q = t.start := by
  unfold Parser.runText at ha
  split at ha
  · next tokens htokens =>
    have hahead : Token.InOrder (fun t => t ∈ tokens ∧ t ∈ Token.written src)
        (Cursor.ofTokens tokens).tokens := by
      have horder := Token.inOrder_of_tokenize htokens
      cases tokens with
      | nil =>
        refine ⟨List.pairwise_singleton _ _, fun t ht hproper => ?_, fun t u rest hsuffix => ?_⟩
        · cases List.mem_singleton.mp ht
          cases hproper
        · have hlen := hsuffix.length_le
          simp [Cursor.ofTokens, Cursor.tokens] at hlen
      | cons => exact horder
    unfold Parser.run at ha
    split at ha
    · next hp =>
      cases ha
      have htrail := h _ _ _ rfl
        ⟨hahead, .nil, List.forall_mem_nil _, List.forall_mem_nil _⟩ hp
      refine ⟨tokens, htokens, htrail.sorted, fun q hq => ?_⟩
      obtain ⟨t, ⟨ht, hwritten⟩, hstart⟩ := htrail.starts q hq
      exact ⟨t, ht, hwritten, hstart⟩
    · cases ha
  · cases ha

theorem File.parser_trails {I : Token → Prop} {t : Token} :
    File.parser.Trails I t [] fun file => file.funcs.flatMap Func.places :=
  .seq fun _ _ => .seq fun _ _ => .seq fun _ _ => .bind (Grammar.full_trails .imports trivial)
    fun _ _ => .bind (Grammar.full_trails .decls trivial) fun _ _ =>
      .pure (.of_eq (by simp [Nonterminal.places]))

theorem Expr.listParser_trails {I : Token → Prop} {t : Token} :
    Expr.listParser.Trails I t [] fun xs => Node.places (Expr.eachVisits xs) :=
  .bind (Grammar.full_trails .exprs trivial) fun _ _ => .seq fun _ _ => .seq fun _ _ =>
    .pure (.refl _)

theorem Stmt.listParser_trails {I : Token → Prop} {t : Token} :
    Stmt.listParser.Trails I t [] fun ss => Node.places (Stmt.eachVisits ss) :=
  .bind (Grammar.full_trails .stmts trivial) fun _ _ => .seq fun _ _ => .pure (.refl _)

theorem Func.listParser_trails {I : Token → Prop} {t : Token} :
    Func.listParser.Trails I t [] fun fs => fs.flatMap Func.places :=
  .mono (Grammar.full_trails .funcs trivial) fun _ => .refl _

theorem Node.Solid.pos?_isSome {n : Node} (h : n.Solid) : n.pos?.isSome := by
  cases n with
  | exprs xs | stmts xs | fields xs =>
    cases xs with
    | nil => exact absurd rfl h
    | cons => rfl
  | _ => rfl

/-- Every node that is visited has a place. -/
theorem File.map_pos? (file : File) :
    file.visits.map Node.pos? = (Node.places file.visits).map some := by
  have hsome : ∀ n ∈ file.visits, n.pos?.isSome := fun n hn => (visits_sublist hn).1.pos?_isSome
  generalize file.visits = ns at hsome
  induction ns with
  | nil => rfl
  | cons n ns ih =>
    obtain ⟨hn, hns⟩ := List.forall_mem_cons.mp hsome
    obtain ⟨p, hp⟩ := Option.isSome_iff_exists.mp hn
    have hcons : Node.places (n :: ns) = p :: Node.places ns := List.filterMap_cons_some hp
    rw [List.map_cons, ih hns, hcons, List.map_cons, hp]

/-- The places of visited nodes are among those of the functions. -/
theorem File.places_sublist (file : File) :
    (Node.places file.visits).Sublist (file.funcs.flatMap Func.places) := by
  rw [File.visits]
  induction file.funcs with
  | nil => exact .refl _
  | cons f fs ih =>
    rw [List.flatMap_cons, List.flatMap_cons, places_append]
    exact (List.sublist_cons_self f.pos _).append ih

/-- Going through a parsed file follows the source. The places of the nodes and lists that are visited
never go back; each is the start of a token that stands in the source, and none is in front of that of
the node or function it is a part of. -/
theorem File.visits_follow_source {src : String} {file : File} (h : File.parse src = .ok file) :
    ∃ tokens, Token.tokenize false src = .ok tokens ∧
      (∃ ps : List Position, file.visits.map Node.pos? = ps.map some ∧ ps.Pairwise upTo) ∧
      (∀ n ∈ file.visits, ∃ t ∈ tokens, t ∈ Token.written src ∧ n.pos? = some t.start) ∧
      (∀ n ∈ file.visits, ∀ m ∈ n.parts, ∀ p ∈ n.pos?, ∀ q ∈ m.pos?, p.upTo q) ∧
      ∀ f ∈ file.funcs, (∃ t ∈ tokens, t ∈ Token.written src ∧ f.pos = t.start) ∧
        ∀ m ∈ f.parts, ∀ q ∈ m.pos?, f.pos.upTo q := by
  obtain ⟨tokens, htokens, hsorted, hstarts⟩ := Parser.Trails.runText File.parser_trails h
  have hvisits := hsorted.sublist file.places_sublist
  refine ⟨tokens, htokens, ⟨_, file.map_pos?, hvisits⟩, fun n hn => ?_, fun n hn m hm p hp q hq => ?_,
    fun f hf => ⟨?_, fun m hm q hq => ?_⟩⟩
  · obtain ⟨p, hp⟩ := Option.isSome_iff_exists.mp (visits_sublist hn).1.pos?_isSome
    obtain ⟨t, ht, hwritten, hstart⟩ :=
      hstarts p (file.places_sublist.subset (List.mem_filterMap.mpr ⟨n, hn, hp⟩))
    exact ⟨t, ht, hwritten, hstart ▸ hp⟩
  · obtain ⟨hsolid, hwithin⟩ := visits_sublist hn
    have hnode := (List.pairwise_filterMap.mp hvisits).sublist hwithin
    rw [Node.visits_eq hsolid, List.pairwise_cons] at hnode
    refine hnode.1 m (List.mem_flatMap.mpr ⟨m, hm, ?_⟩) p hp q hq
    rw [Node.visits_eq (n.solid_parts m hm)]
    exact List.mem_cons_self
  · exact hstarts f.pos (List.mem_flatMap.mpr ⟨f, hf, List.mem_cons_self⟩)
  · have hfunc := hsorted.sublist (sublist_flatMap_of_mem hf)
    refine (List.pairwise_cons.mp hfunc).1 q (List.mem_filterMap.mpr ⟨m, ?_, hq⟩)
    rw [f.visits_eq]
    refine List.mem_flatMap.mpr ⟨m, hm, ?_⟩
    rw [Node.visits_eq (f.solid_parts m hm)]
    exact List.mem_cons_self

/-- A function with an empty statement behind a label, and with trees that start where parts of them
start. -/
def labelled : String :=
  "package p\nfunc (r T) f(a, b int) \x7b L: ; x.y(a)[b], c = P\x7b\x7d, d \x7d"

theorem labelled_follows_source :
    ∃ file tokens, File.parse labelled = .ok file ∧ Token.tokenize false labelled = .ok tokens ∧
      (Node.places file.visits).map Position.column = [7, 7, 9, 14, 14, 14, 17, 19, 24, 26, 26, 29,
        31, 31, 31, 31, 31, 31, 33, 35, 35, 38, 42, 46, 46, 46, 51] ∧
      (∃ ps : List Position, file.visits.map Node.pos? = ps.map some ∧ ps.Pairwise upTo) ∧
      (∀ n ∈ file.visits, ∃ t ∈ tokens, t ∈ Token.written labelled ∧ n.pos? = some t.start) ∧
      (∀ n ∈ file.visits, ∀ m ∈ n.parts, ∀ p ∈ n.pos?, ∀ q ∈ m.pos?, p.upTo q) ∧
      ∀ f ∈ file.funcs, (∃ t ∈ tokens, t ∈ Token.written labelled ∧ f.pos = t.start) ∧
        ∀ m ∈ f.parts, ∀ q ∈ m.pos?, f.pos.upTo q := by
  have hparse : (File.parse labelled).toOption.map (fun file =>
      (Node.places file.visits).map Position.column) = some [7, 7, 9, 14, 14, 14, 17, 19, 24, 26, 26,
        29, 31, 31, 31, 31, 31, 31, 33, 35, 35, 38, 42, 46, 46, 46, 51] := by
    decide +kernel
  simp only [Option.map_eq_some_iff, except_toOption_eq_some] at hparse
  obtain ⟨file, hfile, hcolumns⟩ := hparse
  obtain ⟨tokens, htokens, hfollows⟩ := File.visits_follow_source hfile
  exact ⟨file, tokens, hfile, htokens, hcolumns, hfollows⟩

end GoSift
