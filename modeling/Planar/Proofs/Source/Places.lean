import Planar.Proofs.Source.Violations

/-!
# The places of nodes

Every node of a program has a part of the derivation to itself and begins where the first token of
that part stands. The first tokens of all parts are tokens of the program in the same order, and so
the places of the nodes increase in source order.

* `Grammar.Tree.parts`, `Grammar.Tree.head` — the derivations within one, and the first token;
* `Grammar.Tree.map_expr_nodes` — the parts denote the nodes, in order;
* `Grammar.Tree.sublist_heads` — the first tokens of the parts stand in order;
* `Expr.BeginsWith` — the word that a node begins with;
* `parse_places` — nodes and literals are in the order of their places, and each place is that of
  the word its node begins with.
-/

namespace Planar

open Grammar

/-! ## Parts of derivations -/

namespace Grammar

/-- The keyword of a literal. -/
def Literal.head : Literal → Token
  | empty w => w.token
  | point w _ _ _ _ _ => w.token
  | line w _ _ _ _ _ => w.token
  | vline w _ _ _ => w.token
  | segment w _ _ _ _ _ _ _ _ _ => w.token

namespace Tree

/-- The first token of an expression. -/
def head : Tree → Token
  | literal v => v.head
  | intersect w _ _ _ _ _ => w.token
  | shift w _ _ _ _ _ _ _ => w.token
  | bind w _ _ _ _ _ => w.token
  | var x => x.token

/-- The derivations of expressions within a derivation, itself first, in source order. -/
def parts : Tree → List Tree
  | d@(literal _) | d@(var _) => [d]
  | d@(intersect _ _ a _ b _) | d@(bind _ _ _ a _ b) => d :: (parts a ++ parts b)
  | d@(shift _ _ _ _ _ _ a _) => d :: parts a

theorem exists_tokens_eq_cons (d : Tree) : ∃ more, d.tokens = d.head :: more := by
  cases d with
  | literal v => cases v <;> exact ⟨_, rfl⟩
  | _ => exact ⟨_, rfl⟩

/-- An expression begins with a word. -/
theorem kind_head (d : Tree) : d.head.kind = .name := by
  cases d with
  | literal v => cases v with | _ w => exact w.sort_token.1
  | intersect w => exact w.sort_token.1
  | shift w => exact w.sort_token.1
  | bind w => exact w.sort_token.1
  | var x => exact x.sort_token.1

/-- A node begins at its first token. -/
theorem span?_expr (d : Tree) : d.expr.span? = some d.head.span := by
  cases d with
  | literal v => cases v <;> rfl
  | _ => rfl

/-- The parts of a derivation denote the nodes of its expression. -/
theorem map_expr_nodes (d : Tree) (scope : List String) :
    (d.expr.nodes scope).map Node.expr = d.parts.map expr := by
  induction d generalizing scope with
  | literal v => rfl
  | intersect w l a c b r iha ihb =>
    simp only [expr, Expr.nodes, parts, List.map_cons, List.map_append, iha, ihb]
  | shift w l dx c₁ dy c₂ a r ih => simp only [expr, Expr.nodes, parts, List.map_cons, ih]
  | bind w x q a i b iha ihb =>
    simp only [expr, Expr.nodes, parts, List.map_cons, List.map_append, iha, ihb]
  | var x => rfl

/-- The tokens of a part stand together in the tokens of the whole. -/
theorem tokens_infix {d part : Tree} (h : part ∈ d.parts) : part.tokens <:+: d.tokens := by
  induction d with
  | literal v =>
    obtain rfl := List.mem_singleton.1 h
    exact List.infix_rfl
  | intersect w l a c b r iha ihb =>
    rw [parts, List.mem_cons, List.mem_append] at h
    obtain rfl | ha | hb := h
    · exact List.infix_rfl
    · exact (iha ha).trans ⟨[w.token, l.token], c.token :: (b.tokens ++ [r.token]), by simp [tokens]⟩
    · exact (ihb hb).trans
        ⟨w.token :: l.token :: (a.tokens ++ [c.token]), [r.token], by simp [tokens]⟩
  | shift w l dx c₁ dy c₂ a r ih =>
    rw [parts, List.mem_cons] at h
    obtain rfl | ha := h
    · exact List.infix_rfl
    · exact (ih ha).trans
        ⟨w.token :: l.token :: (dx.tokens ++ c₁.token :: (dy.tokens ++ [c₂.token])), [r.token],
          by simp [tokens]⟩
  | bind w x q a i b iha ihb =>
    rw [parts, List.mem_cons, List.mem_append] at h
    obtain rfl | ha | hb := h
    · exact List.infix_rfl
    · exact (iha ha).trans
        ⟨[w.token, x.token, q.token], i.token :: b.tokens, by simp [tokens]⟩
    · exact (ihb hb).trans
        ⟨w.token :: x.token :: q.token :: (a.tokens ++ [i.token]), [], by simp [tokens]⟩
  | var x =>
    obtain rfl := List.mem_singleton.1 h
    exact List.infix_rfl

/-- The first tokens of the parts are tokens of the whole, in the same order. -/
theorem sublist_heads (d : Tree) : (d.parts.map head).Sublist d.tokens := by
  induction d with
  | literal v => cases v <;> exact List.singleton_sublist.2 List.mem_cons_self
  | intersect w l a c b r iha ihb =>
    rw [parts, tokens, List.map_cons, List.map_append]
    have hb := (ihb.trans (List.sublist_append_left b.tokens [r.token])).cons c.token
    exact ((iha.append hb).cons l.token).cons_cons w.token
  | shift w l dx c₁ dy c₂ a r ih =>
    rw [parts, tokens, List.map_cons]
    have ha := (ih.trans (List.sublist_append_left a.tokens [r.token])).cons c₂.token
    have hdy := (ha.trans (List.sublist_append_right dy.tokens _)).cons c₁.token
    exact ((hdy.trans (List.sublist_append_right dx.tokens _)).cons l.token).cons_cons w.token
  | bind w x q a i b iha ihb =>
    rw [parts, tokens, List.map_cons, List.map_append]
    exact (((iha.append (ihb.cons i.token)).cons q.token).cons x.token).cons_cons w.token
  | var x => exact List.Sublist.refl _

end Tree

end Grammar

/-! ## Words that nodes begin with -/

/-- Whether a node begins with the given word: with its keyword in some letter case, or with the name
that it is. -/
def Expr.BeginsWith (word : String) : Expr Float → Prop
  | literal v _ => ∃ k : Keyword, k.text = v.kind ∧ k.Spells word
  | var name _ => word = name
  | intersect _ _ _ => Keyword.intersect.Spells word
  | bind _ _ _ _ => Keyword.let.Spells word
  | shift _ _ _ _ => Keyword.shift.Spells word
  | placeholder => False

theorem Grammar.Tree.beginsWith_head (d : Tree) : d.expr.BeginsWith d.head.text := by
  cases d with
  | literal v => cases v with | _ w => exact ⟨_, rfl, w.sort_token.2⟩
  | intersect w => exact w.sort_token.2
  | shift w => exact w.sort_token.2
  | bind w => exact w.sort_token.2
  | var x => rfl

/-! ## Nodes in order -/

namespace Node

/-- Whether two nodes have places, of which the first comes before the second. -/
def StartsBefore (m n : Node Float) : Prop :=
  ∃ a b, m.expr.span? = some a ∧ n.expr.span? = some b ∧ a.Before b

/-- The value and the place of a node that is a literal with a place. -/
def literal? : Node Float → Option (Value Float × Span)
  | ⟨_, .literal v (some span)⟩ => some (v, span)
  | _ => none

theorem literal?_eq_some_iff {node : Node Float} {v : Value Float} {span : Span} :
    node.literal? = some (v, span) ↔ node.expr = .literal v (some span) := by
  obtain ⟨scope, e⟩ := node
  unfold literal?
  split <;> simp_all

end Node

/-- The literals of a derivation are the nodes that are literals. -/
theorem Grammar.Tree.filterMap_literal? (d : Tree) (scope : List String) :
    ((d.expr.nodes scope).filterMap Node.literal?).map Prod.fst = d.expr.leaves := by
  induction d generalizing scope with
  | literal v => rfl
  | intersect w l a c b r iha ihb =>
    simp only [expr, Expr.nodes, Expr.leaves, List.filterMap_cons, Node.literal?,
      List.filterMap_append, List.map_append, iha, ihb]
  | shift w l dx c₁ dy c₂ a r ih =>
    simp only [expr, Expr.nodes, Expr.leaves, List.filterMap_cons, Node.literal?, ih]
  | bind w x q a i b iha ihb =>
    simp only [expr, Expr.nodes, Expr.leaves, List.filterMap_cons, Node.literal?,
      List.filterMap_append, List.map_append, iha, ihb]
  | var x => rfl

/-- The nodes of a program are in the order of their places. -/
theorem Grammar.Tree.pairwise_nodes {d : Tree} {text : String} (h : Token.scan text = .ok d.tokens)
    (scope : List String) : (d.expr.nodes scope).Pairwise Node.StartsBefore := by
  have hheads : (d.parts.map head).Pairwise fun t u => t.span.Before u.span :=
    (Token.pairwise_of_scan h).sublist d.sublist_heads
  rw [List.pairwise_map] at hheads
  have hexprs : (d.parts.map expr).Pairwise fun a b =>
      ∃ p q, a.span? = some p ∧ b.span? = some q ∧ p.Before q := by
    rw [List.pairwise_map]
    refine hheads.imp fun {a b} hbefore => ?_
    exact ⟨a.head.span, b.head.span, a.span?_expr, b.span?_expr, hbefore⟩
  rw [← d.map_expr_nodes scope, List.pairwise_map] at hexprs
  exact hexprs

/-- The nodes of a program are in the order of their places. Each begins at the first of the tokens
that it is derived from, which stands there in the text as a whole word and is its keyword or its
name. The literals are listed in the order of their places. -/
theorem parse_places (text : String) (e : Expr Float) (h : Expr.parse text = .ok e) :
    (e.nodes []).Pairwise Node.StartsBefore ∧
    (∃ ts, Token.scan text = .ok ts ∧ ∀ node ∈ e.nodes [], ∃ (part : Tree) (t : Token) (more : _),
      part.expr = node.expr ∧ part.tokens = t :: more ∧ part.tokens <:+: ts ∧
      node.expr.span? = some t.span ∧ t.kind = .name ∧ t.StandsIn (Text.lines text.toList) ∧
      node.expr.BeginsWith t.text) ∧
    ∃ found : List (Value Float × Span), e.literals.Yields (found.map Prod.fst) ∧
      found.Pairwise (fun l m => l.2.Before m.2) ∧
      ∀ v span, (v, span) ∈ found ↔ ∃ node ∈ e.nodes [], node.expr = .literal v (some span) := by
  have hconcrete := (Expr.isPrintable_of_parse h).isConcrete
  obtain ⟨d, hscan, rfl⟩ := Expr.exists_tree_of_parse h
  refine ⟨Tree.pairwise_nodes hscan [], ⟨d.tokens, hscan, ?_⟩, ?_⟩
  · intro node hnode
    have hpart : node.expr ∈ d.parts.map Tree.expr := by
      rw [← d.map_expr_nodes []]
      exact List.mem_map_of_mem hnode
    obtain ⟨part, hmem, hexpr⟩ := List.mem_map.1 hpart
    obtain ⟨more, htokens⟩ := part.exists_tokens_eq_cons
    have hinfix := Tree.tokens_infix hmem
    have hhead : part.head ∈ d.tokens := by
      apply hinfix.subset
      rw [htokens]
      exact List.mem_cons_self
    refine ⟨part, part.head, more, hexpr, htokens, hinfix, ?_, part.kind_head, ?_, ?_⟩
    · rw [← hexpr]
      exact part.span?_expr
    · exact Token.standsIn_of_scan hscan hhead
    · rw [← hexpr]
      exact part.beginsWith_head
  · refine ⟨(d.expr.nodes []).filterMap Node.literal?, ?_, ?_, ?_⟩
    · rw [d.filterMap_literal? []]
      exact Expr.yields_literals hconcrete
    · apply (Tree.pairwise_nodes hscan []).filterMap
      rintro m n ⟨a, b, ha, hb, hbefore⟩ ⟨v, p⟩ hp ⟨w, q⟩ hq
      rw [Node.literal?_eq_some_iff.1 hp] at ha
      rw [Node.literal?_eq_some_iff.1 hq] at hb
      cases ha
      cases hb
      exact hbefore
    · intro v span
      rw [List.mem_filterMap]
      simp only [Node.literal?_eq_some_iff]

/-- Comments, line breaks and capitals between the nodes of nested bindings. -/
theorem parse_places_nested :
    ∃ text e, Expr.parse text = .ok e ∧
      (e.nodes []).map (·.expr.span?) = [some ⟨2, 1⟩, some ⟨2, 9⟩, some ⟨3, 3⟩, some ⟨3, 11⟩,
        some ⟨3, 21⟩, some ⟨4, 5⟩, some ⟨5, 6⟩] ∧
      (e.nodes []).Pairwise Node.StartsBefore ∧
      (∃ ts, Token.scan text = .ok ts ∧
        ∀ node ∈ e.nodes [], ∃ (part : Tree) (t : Token) (more : _),
          part.expr = node.expr ∧ part.tokens = t :: more ∧ part.tokens <:+: ts ∧
          node.expr.span? = some t.span ∧ t.kind = .name ∧ t.StandsIn (Text.lines text.toList) ∧
          node.expr.BeginsWith t.text) ∧
      ∃ found : List (Value Float × Span), e.literals.Yields (found.map Prod.fst) ∧
        found.Pairwise (fun l m => l.2.Before m.2) ∧
        ∀ v span, (v, span) ∈ found ↔ ∃ node ∈ e.nodes [], node.expr = .literal v (some span) := by
  have h : Expr.parse
      "# nested\nlet a = Empty in # the outer one\n  LET b = intersect(a,\n    empty)\n  in b" =
      .ok (.bind "a" (.literal .empty (some ⟨2, 9⟩))
        (.bind "b" (.intersect (.var "a" (some ⟨3, 21⟩)) (.literal .empty (some ⟨4, 5⟩))
          (some ⟨3, 11⟩)) (.var "b" (some ⟨5, 6⟩)) (some ⟨3, 3⟩)) (some ⟨2, 1⟩)) := by
    decide +kernel
  exact ⟨_, _, h, rfl, parse_places _ _ h⟩

end Planar
