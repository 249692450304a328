import LoopbackOData.Library.Outcome
import LoopbackOData.Search.Scanner

/-!
# The expression of a `$search` text

`parseSearchExpression`, and that it reads a boolean expression back from every text that it can be
written as: `NOT` before `AND`, also an implied one, before `OR`, with parentheses.
-/

namespace LoopbackOData

namespace Search

set_option autoImplicit false

inductive SearchAst where
  | term (value : Text)
  | and (nodes : List SearchAst)
  | or (nodes : List SearchAst)
  | not (node : SearchAst)
  deriving Repr

structure SearchParseResult where
  node : SearchAst
  termCount : Nat
  deriving Repr

mutual

/-- How many terms were read. -/
def SearchAst.termCount : SearchAst → Nat
  | .term _ => 1
  | .and nodes => termCounts nodes
  | .or nodes => termCounts nodes
  | .not node => node.termCount

def termCounts : List SearchAst → Nat
  | [] => 0
  | node :: nodes => node.termCount + termCounts nodes

end

def describeToken : Option SearchToken → Text
  | none => "end of expression".toList
  | some (.term value) => "term \"".toList ++ value ++ "\"".toList
  | some .and => "AND".toList
  | some .or => "OR".toList
  | some .not => "NOT".toList
  | some .lparen => "(".toList
  | some .rparen => ")".toList

def unexpected (token : Option SearchToken) : SearchError :=
  .badRequest ("Invalid $search expression: Unexpected token ".toList ++ describeToken token ++
    ".".toList)

def canImplicitAnd : SearchToken → Bool
  | .term _ => true
  | .lparen => true
  | .not => true
  | _ => false

def single (wrap : List SearchAst → SearchAst) : List SearchAst → SearchAst
  | [node] => node
  | nodes => wrap nodes

/-- What is read off the front of the tokens, and the tokens after it. -/
abbrev Parsed := SearchAst × List SearchToken

mutual

/-- The loop of `parseOr`, which has `nodes` and reads one more. -/
def parseOrFrom : Nat → List SearchAst → List SearchToken → Except SearchError Parsed
  | 0, _, _ => .error .outOfFuel
  | fuel + 1, nodes, tokens => do
    let (node, rest) ← parseAndFrom fuel [] tokens
    parseOrRest fuel (nodes ++ [node]) rest

def parseOrRest : Nat → List SearchAst → List SearchToken → Except SearchError Parsed
  | 0, _, _ => .error .outOfFuel
  | fuel + 1, nodes, .or :: rest => parseOrFrom fuel nodes rest
  | _ + 1, nodes, tokens => .ok (single .or nodes, tokens)

/-- The loop of `parseAnd`, which has `nodes` and reads one more. -/
def parseAndFrom : Nat → List SearchAst → List SearchToken → Except SearchError Parsed
  | 0, _, _ => .error .outOfFuel
  | fuel + 1, nodes, tokens => do
    let (node, rest) ← parseUnary fuel tokens
    parseAndRest fuel (nodes ++ [node]) rest

def parseAndRest : Nat → List SearchAst → List SearchToken → Except SearchError Parsed
  | 0, _, _ => .error .outOfFuel
  | _ + 1, nodes, [] => .ok (single .and nodes, [])
  | fuel + 1, nodes, token :: rest =>
    if token = .and then parseAndFrom fuel nodes rest
    else if canImplicitAnd token then parseAndFrom fuel nodes (token :: rest)
    else .ok (single .and nodes, token :: rest)

def parseUnary : Nat → List SearchToken → Except SearchError Parsed
  | 0, _ => .error .outOfFuel
  | fuel + 1, .not :: rest => do
    let (node, rest) ← parseUnary fuel rest
    return (.not node, rest)
  | fuel + 1, tokens => parsePrimary fuel tokens

def parsePrimary : Nat → List SearchToken → Except SearchError Parsed
  | 0, _ => .error .outOfFuel
  | _ + 1, [] => .error (invalid "Unexpected end of expression.")
  | fuel + 1, .lparen :: rest => do
    match ← parseOrFrom fuel [] rest with
    | (node, .rparen :: rest) => return (node, rest)
    | _ => .error (invalid "Expected \")\" to close group.")
  | _ + 1, .term value :: rest => .ok (.term value, rest)
  | _ + 1, token :: _ => .error (unexpected token)

end

/-- `none` where there is nothing to search for. -/
def parseSearchExpression (text : Text) : Except SearchError (Option SearchParseResult) := do
  let tokens ← scanSearchTokens text
  if tokens = [] then return none
  let (node, rest) ← parseOrFrom (6 * tokens.length + 5) [] tokens
  if rest ≠ [] then .error (unexpected rest.head?)
  else if node.termCount = 0 then return none
  else return some ⟨node, node.termCount⟩

/-! ## What an expression says -/

mutual

/-- The truth of an expression, from that of its terms. -/
def SearchAst.holds (found : Text → Bool) : SearchAst → Bool
  | .term value => found value
  | .and nodes => holdsAll found nodes
  | .or nodes => holdsAny found nodes
  | .not node => !node.holds found

def holdsAll (found : Text → Bool) : List SearchAst → Bool
  | [] => true
  | node :: nodes => node.holds found && holdsAll found nodes

def holdsAny (found : Text → Bool) : List SearchAst → Bool
  | [] => false
  | node :: nodes => node.holds found || holdsAny found nodes

end

/-- A boolean expression over terms. -/
inductive SearchExpression where
  | term (text : Text)
  | not (e : SearchExpression)
  | and (a b : SearchExpression)
  | or (a b : SearchExpression)
  deriving Repr

def SearchExpression.holds (found : Text → Bool) : SearchExpression → Bool
  | .term text => found text
  | .not e => !e.holds found
  | .and a b => a.holds found && b.holds found
  | .or a b => a.holds found || b.holds found

inductive Precedence where
  | or | and | unary

/-- The token sequences of an expression at a level of precedence; a chain of one connective may
stand for any association of it. -/
inductive Writes : Precedence → List SearchToken → SearchExpression → Prop where
  | term (text : Text) : Writes .unary [.term text] (.term text)
  | parens {tokens : List SearchToken} {e : SearchExpression} (h : Writes .or tokens e) :
    Writes .unary (.lparen :: (tokens ++ [.rparen])) e
  | not {tokens : List SearchToken} {e : SearchExpression} (h : Writes .unary tokens e) :
    Writes .unary (.not :: tokens) (.not e)
  | unary {tokens : List SearchToken} {e : SearchExpression} (h : Writes .unary tokens e) :
    Writes .and tokens e
  | and {left right : List SearchToken} {a b : SearchExpression} (ha : Writes .and left a)
    (hb : Writes .and right b) : Writes .and (left ++ .and :: right) (.and a b)
  | implied {left right : List SearchToken} {a b : SearchExpression} (ha : Writes .and left a)
    (hb : Writes .and right b) : Writes .and (left ++ right) (.and a b)
  | conjunction {tokens : List SearchToken} {e : SearchExpression} (h : Writes .and tokens e) :
    Writes .or tokens e
  | or {left right : List SearchToken} {a b : SearchExpression} (ha : Writes .or left a)
    (hb : Writes .or right b) : Writes .or (left ++ .or :: right) (.or a b)

/-- The texts of an expression. -/
def WritesText (text : Text) (e : SearchExpression) : Prop :=
  ∃ tokens, SpellsTokens text tokens ∧ Writes .or tokens e

/-- Every connective has a node. -/
inductive SearchAst.Formed : SearchAst → Prop where
  | term (value : Text) : Formed (.term value)
  | not {node : SearchAst} (h : node.Formed) : Formed (.not node)
  | and {nodes : List SearchAst} (hne : nodes ≠ []) (h : ∀ node ∈ nodes, node.Formed) :
    Formed (.and nodes)
  | or {nodes : List SearchAst} (hne : nodes ≠ []) (h : ∀ node ∈ nodes, node.Formed) :
    Formed (.or nodes)

/-! ## Reading back -/

section Reading

variable {found : Text → Bool}

theorem holdsAll_eq (nodes : List SearchAst) :
    holdsAll found nodes = nodes.all (SearchAst.holds found) := by
  induction nodes with
  | nil => rfl
  | cons node nodes ih => rw [holdsAll, ih, List.all_cons]

theorem holdsAny_eq (nodes : List SearchAst) :
    holdsAny found nodes = nodes.any (SearchAst.holds found) := by
  induction nodes with
  | nil => rfl
  | cons node nodes ih => rw [holdsAny, ih, List.any_cons]

/-- A tree that says what an expression says. -/
structure Means (node : SearchAst) (e : SearchExpression) : Prop where
  formed : node.Formed
  holds : ∀ found, node.holds found = e.holds found

/-- The nodes of a chain, which say together what an expression says. -/
structure MeansAll (nodes : List SearchAst) (e : SearchExpression) : Prop where
  nonempty : nodes ≠ []
  formed : ∀ node ∈ nodes, node.Formed
  holds : ∀ found, nodes.all (SearchAst.holds found) = e.holds found

structure MeansAny (nodes : List SearchAst) (e : SearchExpression) : Prop where
  nonempty : nodes ≠ []
  formed : ∀ node ∈ nodes, node.Formed
  holds : ∀ found, nodes.any (SearchAst.holds found) = e.holds found

theorem MeansAll.single {nodes : List SearchAst} {e : SearchExpression} (h : MeansAll nodes e) :
    Means (single .and nodes) e := by
  unfold Search.single
  split
  · next node =>
    refine ⟨h.formed node List.mem_cons_self, fun found => ?_⟩
    rw [← h.holds, List.all_cons, List.all_nil, Bool.and_true]
  · refine ⟨.and h.nonempty h.formed, fun found => ?_⟩
    rw [SearchAst.holds, holdsAll_eq, h.holds]

theorem MeansAny.single {nodes : List SearchAst} {e : SearchExpression} (h : MeansAny nodes e) :
    Means (single .or nodes) e := by
  unfold Search.single
  split
  · next node =>
    refine ⟨h.formed node List.mem_cons_self, fun found => ?_⟩
    rw [← h.holds, List.any_cons, List.any_nil, Bool.or_false]
  · refine ⟨.or h.nonempty h.formed, fun found => ?_⟩
    rw [SearchAst.holds, holdsAny_eq, h.holds]

theorem MeansAll.append {left right : List SearchAst} {a b : SearchExpression}
    (ha : MeansAll left a) (hb : MeansAll right b) : MeansAll (left ++ right) (.and a b) where
  nonempty := List.append_ne_nil_of_left_ne_nil ha.nonempty right
  formed := fun node hnode => (List.mem_append.mp hnode).elim (ha.formed node) (hb.formed node)
  holds := fun found => by rw [List.all_append, ha.holds, hb.holds, SearchExpression.holds]

theorem MeansAny.append {left right : List SearchAst} {a b : SearchExpression}
    (ha : MeansAny left a) (hb : MeansAny right b) : MeansAny (left ++ right) (.or a b) where
  nonempty := List.append_ne_nil_of_left_ne_nil ha.nonempty right
  formed := fun node hnode => (List.mem_append.mp hnode).elim (ha.formed node) (hb.formed node)
  holds := fun found => by rw [List.any_append, ha.holds, hb.holds, SearchExpression.holds]

theorem Means.all {node : SearchAst} {e : SearchExpression} (h : Means node e) :
    MeansAll [node] e where
  nonempty := List.cons_ne_nil _ _
  formed := fun node' hnode => by rw [List.mem_singleton.mp hnode]; exact h.formed
  holds := fun found => by simpa using h.holds found

theorem Means.any {node : SearchAst} {e : SearchExpression} (h : Means node e) :
    MeansAny [node] e where
  nonempty := List.cons_ne_nil _ _
  formed := fun node' hnode => by rw [List.mem_singleton.mp hnode]; exact h.formed
  holds := fun found => by simpa using h.holds found

/-- A conjunction does not go on with these tokens. -/
def EndsAnd (tokens : List SearchToken) : Prop :=
  ∀ token ∈ tokens.head?, token ≠ .and ∧ canImplicitAnd token = false

/-- Each level reads an expression off the front of the tokens, with enough fuel left for the loop
of the level to go on. -/
def Reads : Precedence → List SearchToken → SearchExpression → Prop
  | .unary, tokens, e => ∃ node, Means node e ∧
      ∀ fuel rest, 6 * (tokens ++ rest).length + 3 ≤ fuel →
        parseUnary fuel (tokens ++ rest) = .ok (node, rest)
  | .and, tokens, e => ∃ nodes, MeansAll nodes e ∧
      ∀ fuel before rest, 6 * (tokens ++ rest).length + 4 ≤ fuel →
        ∃ fuel', 6 * rest.length + 9 ≤ fuel' ∧
          parseAndFrom fuel before (tokens ++ rest) = parseAndRest fuel' (before ++ nodes) rest
  | .or, tokens, e => ∃ nodes, MeansAny nodes e ∧
      ∀ fuel before rest, 6 * (tokens ++ rest).length + 5 ≤ fuel → EndsAnd rest →
        ∃ fuel', 6 * rest.length + 6 ≤ fuel' ∧
          parseOrFrom fuel before (tokens ++ rest) = parseOrRest fuel' (before ++ nodes) rest

theorem parseAndRest_ends {fuel : Nat} {nodes : List SearchAst} {rest : List SearchToken}
    (hfuel : 1 ≤ fuel) (h : EndsAnd rest) :
    parseAndRest fuel nodes rest = .ok (single .and nodes, rest) := by
  obtain ⟨fuel, rfl⟩ := Nat.exists_eq_add_of_le' hfuel
  cases rest with
  | nil => rfl
  | cons token rest =>
    obtain ⟨hand, himplied⟩ := h token rfl
    rw [parseAndRest, if_neg hand, if_neg (by simp [himplied])]

theorem parseOrRest_ends {fuel : Nat} {nodes : List SearchAst} {rest : List SearchToken}
    (hfuel : 1 ≤ fuel) (h : rest.head? ≠ some .or) :
    parseOrRest fuel nodes rest = .ok (single .or nodes, rest) := by
  obtain ⟨fuel, rfl⟩ := Nat.exists_eq_add_of_le' hfuel
  rw [parseOrRest.eq_def]
  split
  · next heq => cases heq
  · exact absurd rfl h
  · next heq =>
    rfl

/-- A whole expression, up to the end of the tokens or a closing parenthesis. -/
theorem Reads.whole {tokens : List SearchToken} {e : SearchExpression} (h : Reads .or tokens e) :
    ∃ node, Means node e ∧ ∀ fuel rest, 6 * (tokens ++ rest).length + 5 ≤ fuel → EndsAnd rest →
      rest.head? ≠ some .or → parseOrFrom fuel [] (tokens ++ rest) = .ok (node, rest) := by
  obtain ⟨nodes, hmeans, hparse⟩ := h
  refine ⟨single .or nodes, hmeans.single, fun fuel rest hfuel hends hor => ?_⟩
  obtain ⟨fuel', hfuel', heq⟩ := hparse fuel [] rest hfuel hends
  rw [heq, List.nil_append]
  exact parseOrRest_ends (by omega) hor

theorem Writes.ne_nil {level : Precedence} {tokens : List SearchToken} {e : SearchExpression}
    (h : Writes level tokens e) : tokens ≠ [] := by
  induction h with
  | unary _ ih => exact ih
  | conjunction _ ih => exact ih
  | implied _ _ ih _ => exact List.append_ne_nil_of_left_ne_nil ih _
  | term | parens | not | and | or => simp

/-- What can follow without `AND` starts with a token of a unary expression. -/
theorem Writes.head {level : Precedence} {tokens : List SearchToken} {e : SearchExpression}
    (h : Writes level tokens e) :
    ∃ token rest, tokens = token :: rest ∧ token ≠ .and ∧ canImplicitAnd token = true := by
  induction h with
  | term => exact ⟨_, _, rfl, nofun, rfl⟩
  | parens => exact ⟨_, _, rfl, nofun, rfl⟩
  | not => exact ⟨_, _, rfl, nofun, rfl⟩
  | unary _ ih => exact ih
  | conjunction _ ih => exact ih
  | and _ _ ih _ =>
    obtain ⟨token, rest, rfl, htoken⟩ := ih
    exact ⟨token, _, rfl, htoken⟩
  | implied _ _ ih _ =>
    obtain ⟨token, rest, rfl, htoken⟩ := ih
    exact ⟨token, _, rfl, htoken⟩
  | or _ _ ih _ =>
    obtain ⟨token, rest, rfl, htoken⟩ := ih
    exact ⟨token, _, rfl, htoken⟩

theorem parseUnary_primary {fuel : Nat} (token : SearchToken) {rest : List SearchToken}
    (h : token ≠ .not) :
    parseUnary (fuel + 1) (token :: rest) = parsePrimary fuel (token :: rest) := by
  rw [parseUnary]
  rintro rest' heq
  exact h (List.cons.inj heq).1

theorem reads_parens {tokens : List SearchToken} {e : SearchExpression} (h : Reads .or tokens e) :
    Reads .unary (.lparen :: (tokens ++ [.rparen])) e := by
  obtain ⟨node, hmeans, hparse⟩ := h.whole
  refine ⟨node, hmeans, fun fuel rest hfuel => ?_⟩
  simp only [List.cons_append, List.append_assoc, List.length_cons, List.length_append,
    List.nil_append] at hfuel ⊢
  obtain ⟨fuel, rfl⟩ := Nat.exists_eq_add_of_le' (Nat.le_trans (by omega : 2 ≤ _) hfuel)
  have hread : parseOrFrom fuel [] (tokens ++ .rparen :: rest) = .ok (node, .rparen :: rest) := by
    apply hparse
    · simp only [List.length_append, List.length_cons]
      omega
    · rintro token ⟨⟩
      exact ⟨nofun, rfl⟩
    · nofun
  rw [parseUnary_primary .lparen nofun, parsePrimary]
  exact Outcome.bind_eq_ok.mpr ⟨_, hread, rfl⟩

theorem reads_and {left right : List SearchToken} {a b : SearchExpression}
    (between : List SearchToken) (ha : Reads .and left a) (hb : Reads .and right b)
    (hbetween : ∀ fuel nodes rest, parseAndRest (fuel + 1) nodes (between ++ (right ++ rest)) =
      parseAndFrom fuel nodes (right ++ rest)) :
    Reads .and (left ++ (between ++ right)) (.and a b) := by
  obtain ⟨leftNodes, hleft, hparseLeft⟩ := ha
  obtain ⟨rightNodes, hright, hparseRight⟩ := hb
  refine ⟨leftNodes ++ rightNodes, hleft.append hright, fun fuel before rest hfuel => ?_⟩
  rw [List.append_assoc, List.append_assoc] at hfuel ⊢
  obtain ⟨fuel', hfuel', heq⟩ := hparseLeft fuel before _ hfuel
  obtain ⟨fuel', rfl⟩ := Nat.exists_eq_add_of_le' (Nat.le_trans (by omega : 1 ≤ _) hfuel')
  rw [List.length_append] at hfuel'
  obtain ⟨fuel'', hfuel'', heq'⟩ := hparseRight fuel' (before ++ leftNodes) rest (by omega)
  refine ⟨fuel'', hfuel'', ?_⟩
  rw [heq, hbetween, heq', List.append_assoc]

/-- Every expression is read back at its level. -/
theorem reads_writes {level : Precedence} {tokens : List SearchToken} {e : SearchExpression}
    (h : Writes level tokens e) : Reads level tokens e := by
  induction h with
  | term text =>
    refine ⟨.term text, ⟨.term text, fun _ => rfl⟩, fun fuel rest hfuel => ?_⟩
    obtain ⟨fuel, rfl⟩ := Nat.exists_eq_add_of_le' (Nat.le_trans (by omega : 2 ≤ _) hfuel)
    rw [List.singleton_append, parseUnary_primary (.term text) nofun, parsePrimary]
  | parens _ ih => exact reads_parens ih
  | not _ ih =>
    obtain ⟨node, hmeans, hparse⟩ := ih
    refine ⟨.not node, ⟨.not hmeans.formed, fun found => ?_⟩, fun fuel rest hfuel => ?_⟩
    · rw [SearchAst.holds, SearchExpression.holds, hmeans.holds]
    · rw [List.cons_append, List.length_cons] at hfuel
      obtain ⟨fuel, rfl⟩ := Nat.exists_eq_add_of_le' (Nat.le_trans (by omega : 1 ≤ _) hfuel)
      rw [List.cons_append, parseUnary, hparse fuel rest (by omega)]
      rfl
  | @unary tokens e hwrites ih =>
    obtain ⟨node, hmeans, hparse⟩ := ih
    refine ⟨[node], hmeans.all, fun fuel before rest hfuel => ?_⟩
    have hlength := List.length_pos_iff.mpr hwrites.ne_nil
    obtain ⟨fuel, rfl⟩ := Nat.exists_eq_add_of_le' (Nat.le_trans (by omega : 1 ≤ _) hfuel)
    refine ⟨fuel, ?_, ?_⟩
    · rw [List.length_append] at hfuel
      omega
    · rw [parseAndFrom, hparse fuel rest (by omega)]
      rfl
  | and _ _ iha ihb =>
    refine reads_and [.and] iha ihb fun fuel nodes rest => ?_
    rw [List.singleton_append, parseAndRest, if_pos rfl]
  | @implied left right a b _ hb iha ihb =>
    refine reads_and [] iha ihb fun fuel nodes rest => ?_
    obtain ⟨token, right, rfl, hand, himplied⟩ := hb.head
    rw [List.nil_append, List.cons_append, parseAndRest, if_neg hand, if_pos himplied]
  | @conjunction tokens e hwrites ih =>
    obtain ⟨nodes, hmeans, hparse⟩ := ih
    refine ⟨[single .and nodes], hmeans.single.any, fun fuel before rest hfuel hends => ?_⟩
    have hlength := List.length_pos_iff.mpr hwrites.ne_nil
    obtain ⟨fuel, rfl⟩ := Nat.exists_eq_add_of_le' (Nat.le_trans (by omega : 1 ≤ _) hfuel)
    obtain ⟨fuel', hfuel', heq⟩ := hparse fuel [] rest (by omega)
    refine ⟨fuel, ?_, ?_⟩
    · rw [List.length_append] at hfuel
      omega
    · rw [parseOrFrom, heq, List.nil_append, parseAndRest_ends (by omega) hends]
      rfl
  | or _ _ iha ihb =>
    obtain ⟨leftNodes, hleft, hparseLeft⟩ := iha
    obtain ⟨rightNodes, hright, hparseRight⟩ := ihb
    refine ⟨leftNodes ++ rightNodes, hleft.append hright, fun fuel before rest hfuel hends => ?_⟩
    rw [List.append_assoc] at hfuel ⊢
    obtain ⟨fuel', hfuel', heq⟩ := hparseLeft fuel before _ hfuel <| by
      rintro token ⟨⟩
      exact ⟨nofun, rfl⟩
    rw [List.cons_append, List.length_cons] at hfuel'
    obtain ⟨fuel', rfl⟩ := Nat.exists_eq_add_of_le' (Nat.le_trans (by omega : 1 ≤ _) hfuel')
    obtain ⟨fuel'', hfuel'', heq'⟩ :=
      hparseRight fuel' (before ++ leftNodes) rest (by omega) hends
    refine ⟨fuel'', hfuel'', ?_⟩
    rw [heq, List.cons_append, parseOrRest, heq', List.append_assoc]

theorem termCount_pos {node : SearchAst} (h : node.Formed) : 0 < node.termCount := by
  have hlist : ∀ nodes : List SearchAst, nodes ≠ [] → (∀ node ∈ nodes, 0 < node.termCount) →
      0 < termCounts nodes := by
    intro nodes hne hall
    obtain ⟨node, nodes, rfl⟩ := List.exists_cons_of_ne_nil hne
    rw [termCounts]
    exact Nat.add_pos_left (hall node List.mem_cons_self) _
  induction h with
  | term => exact Nat.one_pos
  | not _ ih => exact ih
  | and hne _ ih => exact hlist _ hne ih
  | or hne _ ih => exact hlist _ hne ih

/-- Every text of an expression is parsed to a tree that says the same. -/
theorem parseSearchExpression_writes {text : Text} {e : SearchExpression} (h : WritesText text e) :
    ∃ result, parseSearchExpression text = .ok (some result) ∧ Means result.node e := by
  obtain ⟨tokens, hspells, hwrites⟩ := h
  obtain ⟨node, hmeans, hparse⟩ := (reads_writes hwrites).whole
  have hread := hparse (6 * tokens.length + 5) [] (by simp) nofun nofun
  rw [List.append_nil] at hread
  refine ⟨⟨node, node.termCount⟩, ?_, hmeans⟩
  rw [parseSearchExpression, scanSearchTokens_spells hspells]
  have hcount : node.termCount ≠ 0 := (termCount_pos hmeans.formed).ne'
  refine Outcome.bind_eq_ok.mpr ⟨tokens, rfl, ?_⟩
  rw [if_neg hwrites.ne_nil, hread]
  simp [Bind.bind, Except.bind, hcount]
  rfl

end Reading

end Search

end LoopbackOData
