import Folio.Proofs.TokenPieces

/-!
# Expressions at their places

Every node of an expression has the place of the token that it is named for: a
literal, a name, an operator, the dot of an attribute or the opening bracket of
a call or a list.  The place is counted from where the text of the expression
is first found on its line, so it need not be where the expression was written.
The token can be read there nevertheless, since the text that was found is the
same.

An expression goes on below its line if the line leaves a bracket open.  Its
places are then still counted on the first line, and nothing is said of what is
written there.
-/

namespace Folio.Source

variable {tokens others : List Token} {text : Text} {e : Expr}

/-! ## Nodes and their tokens -/

mutual

def Expr.nodes : Expr → List Expr
  | .constant value loc => [.constant value loc]
  | .name identifier loc => [.name identifier loc]
  | .range first last loc => .range first last loc :: (first.nodes ++ last.nodes)
  | .list items loc => .list items loc :: nodesOf items
  | .attribute object name loc => .attribute object name loc :: object.nodes
  | .call callee args named loc =>
    .call callee args named loc ::
      (callee.nodes ++ (nodesOf args ++ nodesOfNamed named))
  | .unary op operand loc => .unary op operand loc :: operand.nodes
  | .binary op left right loc => .binary op left right loc :: (left.nodes ++ right.nodes)
  | .compare op left right loc => .compare op left right loc :: (left.nodes ++ right.nodes)
  | .misplaced loc => [.misplaced loc]

def nodesOf : List Expr → List Expr
  | [] => []
  | e :: rest => e.nodes ++ nodesOf rest

def nodesOfNamed : List (String × Expr) → List Expr
  | [] => []
  | (_, e) :: rest => e.nodes ++ nodesOfNamed rest

end

/-- A node is named for a lexeme. -/
inductive Anchors : Lexeme → Expr → Prop
  | number {digits : Text} (numeral : IsNumeral digits) (loc : Option Location) :
      Anchors (.number digits) (.constant (.int (numeralValue digits)) loc)
  | string (value : Text) (loc : Option Location) :
      Anchors (.string value) (.constant (.text value) loc)
  | yes (spelling : Text) (loc : Option Location) :
      Anchors (.keyword .yes spelling) (.constant (.bool true) loc)
  | no (spelling : Text) (loc : Option Location) :
      Anchors (.keyword .no spelling) (.constant (.bool false) loc)
  | name (spelling : Text) (loc : Option Location) :
      Anchors (.name spelling) (.name (String.ofList spelling) loc)
  | deny (spelling : Text) (operand : Expr) (loc : Option Location) :
      Anchors (.keyword .not spelling) (.unary .not operand loc)
  | negate (operand : Expr) (loc : Option Location) :
      Anchors (.symbol .minus) (.unary .negate operand loc)
  | operator {level : Level} {lexeme : Lexeme} {op : Operator}
      (spells : Spells level lexeme op) (left right : Expr) (loc : Location) :
      Anchors lexeme (op.apply left right loc)
  | attribute (object : Expr) (name : String) (loc : Option Location) :
      Anchors (.symbol .dot) (.attribute object name loc)
  | call (callee : Expr) (args : List Expr) (named : List (String × Expr)) (loc : Option Location) :
      Anchors (.symbol .openParen) (.call callee args named loc)
  | list (items : List Expr) (loc : Option Location) :
      Anchors (.symbol .openBracket) (.list items loc)
  | range (first last : Expr) (loc : Option Location) :
      Anchors (.symbol .colon) (.range first last loc)

theorem Operator.nodes_apply (op : Operator) (left right : Expr) (loc : Location) :
    (op.apply left right loc).nodes = op.apply left right loc :: (left.nodes ++ right.nodes) := by
  cases op <;> simp [Operator.apply, Expr.nodes]

theorem Operator.loc_apply (op : Operator) (left right : Expr) (loc : Location) :
    (op.apply left right loc).loc = some loc := by
  cases op <;> rfl

/-! ## Nodes of a phrase -/

section Phrases

variable (origin : Location)

/-- Each of some nodes is named for a token and has its place. -/
def Anchored (tokens : List Token) (nodes : List Expr) : Prop :=
  ∀ node ∈ nodes, ∃ token ∈ tokens,
    node.loc = some (origin.shift token.column) ∧ Anchors token.lexeme node

variable {origin}

theorem anchored_nil (tokens : List Token) : Anchored origin tokens [] := by simp [Anchored]

theorem Anchored.mono {nodes : List Expr} (hanchored : Anchored origin tokens nodes)
    (hsubset : tokens ⊆ others) : Anchored origin others nodes := by
  intro node hnode
  obtain ⟨token, htoken, hplace⟩ := hanchored node hnode
  exact ⟨token, hsubset htoken, hplace⟩

theorem Anchored.append {nodes more : List Expr} (hnodes : Anchored origin tokens nodes)
    (hmore : Anchored origin others more) : Anchored origin (tokens ++ others) (nodes ++ more) :=
  List.forall_mem_append.mpr ⟨hnodes.mono (List.subset_append_left _ _),
    hmore.mono (List.subset_append_right _ _)⟩

theorem Anchored.cons {tokens : List Token} {nodes : List Expr} {token : Token} {node : Expr}
    (hloc : node.loc = some (origin.shift token.column)) (hanchors : Anchors token.lexeme node)
    (hnodes : Anchored origin tokens nodes) : Anchored origin (token :: tokens) (node :: nodes) :=
  List.forall_mem_cons.mpr ⟨⟨token, .head _, hloc, hanchors⟩,
    hnodes.mono (List.subset_cons_self _ _)⟩

theorem Anchored.insert {nodes : List Expr} (hanchored : Anchored origin (tokens ++ others) nodes)
    (token : Token) : Anchored origin (tokens ++ token :: others) nodes := by
  refine hanchored.mono (List.append_subset.mpr
    ⟨List.subset_append_left _ _, fun other hother => ?_⟩)
  exact List.mem_append_right _ (.tail _ hother)

mutual

theorem Phrase.anchored {level : Level} (phrase : Phrase level) :
    Anchored origin phrase.tokens (phrase.expr origin).nodes := by
  match phrase with
  | .row _ first rest => exact rest.anchored first.anchored
  | .deny spelling column operand => exact .cons rfl (.deny spelling _ _) operand.anchored
  | .affirm operand | .keepSign operand => exact operand.anchored
  | .negate column operand => exact .cons rfl (.negate _ _) operand.anchored
  | .suffixed head suffixes => exact suffixes.anchored head.anchored
  | .number digits numeral column => exact .cons rfl (.number numeral _) (anchored_nil _)
  | .string value column => exact .cons rfl (.string value _) (anchored_nil _)
  | .yes spelling column => exact .cons rfl (.yes spelling _) (anchored_nil _)
  | .no spelling column => exact .cons rfl (.no spelling _) (anchored_nil _)
  | .name spelling column => exact .cons rfl (.name spelling _) (anchored_nil _)
  | .parentheses opened inner closed =>
    exact inner.anchored.mono (List.subset_cons_of_subset _ (List.subset_append_left _ _))
  | .emptyList opened closed => exact .cons rfl (.list _ _) (anchored_nil _)
  | .list opened items closed =>
    exact .cons rfl (.list _ _) (items.anchored.mono (List.subset_append_left _ _))

theorem Links.anchored {level : Level} (links : Links level) {tokens : List Token} {left : Expr}
    (hleft : Anchored origin tokens left.nodes) :
    Anchored origin (tokens ++ links.tokens) (links.expr origin left).nodes := by
  match links with
  | .done => exact hleft.mono (List.subset_append_left _ _)
  | .more op token hspells operand rest =>
    have hjoined : Anchored origin (tokens ++ token :: operand.tokens)
        (op.apply left (operand.expr origin) (origin.shift token.column)).nodes := by
      rw [op.nodes_apply]
      refine List.forall_mem_cons.mpr ⟨⟨token, by simp, op.loc_apply _ _ _,
        .operator hspells _ _ _⟩, ?_⟩
      exact (hleft.append operand.anchored).insert token
    have hrest := rest.anchored hjoined
    rwa [List.append_assoc, List.cons_append] at hrest

theorem Suffixes.anchored (suffixes : Suffixes) {tokens : List Token} {e : Expr}
    (he : Anchored origin tokens e.nodes) : Anchored origin (tokens ++ suffixes.tokens)
      (suffixes.expr origin e).nodes := by
  match suffixes with
  | .done => exact he.mono (List.subset_append_left _ _)
  | .member dot name column rest =>
    have hmember : Anchored origin (tokens ++ [⟨.symbol .dot, dot⟩, ⟨.name name, column⟩])
        (Expr.attribute e (String.ofList name) (some (origin.shift dot))).nodes :=
      List.forall_mem_cons.mpr ⟨⟨⟨.symbol .dot, dot⟩, by simp, rfl, .attribute _ _ _⟩,
        he.mono (List.subset_append_left _ _)⟩
    have hrest := rest.anchored hmember
    rwa [List.append_assoc] at hrest
  | .emptyCall opened closed rest =>
    have hcall : Anchored origin
        (tokens ++ [⟨.symbol .openParen, opened⟩, ⟨.symbol .closeParen, closed⟩])
        (Expr.call e [] [] (some (origin.shift opened))).nodes := by
      refine List.forall_mem_cons.mpr ⟨⟨⟨.symbol .openParen, opened⟩, by simp, rfl, .call _ _ _ _⟩,
        ?_⟩
      exact he.append (anchored_nil _)
    have hrest := rest.anchored hcall
    rwa [List.append_assoc] at hrest
  | .call opened arguments closed rest =>
    have hcall : Anchored origin (tokens ++ (⟨.symbol .openParen, opened⟩ ::
          (arguments.tokens ++ [⟨.symbol .closeParen, closed⟩])))
        (Expr.call e (arguments.values origin) (arguments.namedValues origin)
          (some (origin.shift opened))).nodes := by
      refine List.forall_mem_cons.mpr ⟨⟨⟨.symbol .openParen, opened⟩, by simp, rfl, .call _ _ _ _⟩,
        ?_⟩
      exact (he.append (arguments.anchored.mono (List.subset_append_left _ _))).insert _
    have hrest := rest.anchored hcall
    simpa [Suffixes.tokens, Suffixes.expr] using hrest

theorem ArgumentList.anchored {taken : List Text} (arguments : ArgumentList taken) :
    Anchored origin arguments.tokens (nodesOf (arguments.values origin) ++
      nodesOfNamed (arguments.namedValues origin)) := by
  match arguments with
  | .positional value rest =>
    rw [ArgumentList.values, ArgumentList.namedValues, nodesOf, List.append_assoc]
    exact value.anchored.append rest.anchored
  | .named key column sign _ value rest =>
    have hvalues := value.anchored.append rest.anchored
    rw [ArgumentList.values, ArgumentList.namedValues, nodesOfNamed]
    intro node hnode
    obtain ⟨token, htoken, hplace⟩ := hvalues node (by
      simp only [List.mem_append] at hnode ⊢
      tauto)
    exact ⟨token, .tail _ (.tail _ htoken), hplace⟩

theorem ArgumentTail.anchored {taken : List Text} (tail : ArgumentTail taken) :
    Anchored origin tail.tokens (nodesOf (tail.values origin) ++
      nodesOfNamed (tail.namedValues origin)) := by
  match tail with
  | .done | .comma _ => exact anchored_nil _
  | .more _ rest => exact rest.anchored.mono (List.subset_cons_self _ _)

theorem ItemList.anchored (items : ItemList) :
    Anchored origin items.tokens (nodesOf (items.exprs origin)) := by
  match items with
  | .item value rest => exact value.anchored.append rest.anchored
  | .range first colon last rest =>
    have hbounds := first.anchored.append (last.anchored.append rest.anchored)
    rw [ItemList.exprs, nodesOf, Expr.nodes, List.cons_append, List.append_assoc]
    exact List.forall_mem_cons.mpr ⟨⟨⟨.symbol .colon, colon⟩, by simp [ItemList.tokens], rfl,
      .range _ _ _⟩, hbounds.insert _⟩

theorem ItemTail.anchored (tail : ItemTail) :
    Anchored origin tail.tokens (nodesOf (tail.exprs origin)) := by
  match tail with
  | .done | .comma _ => exact anchored_nil _
  | .more _ rest => exact rest.anchored.mono (List.subset_cons_self _ _)

end

end Phrases

/-! ## Texts found on a line -/

theorem exists_findFrom?_of_infix {needle : Text} (i : Nat) (hinside : needle <:+: text) :
    ∃ k, Text.findFrom? needle i text = some (i + k) ∧ needle <+: text.drop k := by
  induction text generalizing i with
  | nil =>
    obtain rfl := List.infix_nil.mp hinside
    exact ⟨0, rfl, List.nil_prefix⟩
  | cons c rest ih =>
    by_cases hprefix : needle <+: c :: rest
    · refine ⟨0, ?_, hprefix⟩
      rw [Text.findFrom?, if_pos (List.isPrefixOf_iff_prefix.mpr hprefix)]
      rfl
    · have hrest := (List.infix_cons_iff.mp hinside).resolve_left hprefix
      obtain ⟨k, hfind, hfound⟩ := ih (i + 1) hrest
      refine ⟨k + 1, ?_, hfound⟩
      rw [Text.findFrom?, if_neg (by simpa using hprefix), hfind]
      congr 1
      omega

theorem strip_isInfix (text : Text) : Text.strip text <:+: text := by
  obtain ⟨lead, trail, -, -, hsplit⟩ := exists_strip text
  exact ⟨lead, trail, by rw [List.append_assoc]; exact hsplit.symm⟩

theorem headerBody?_isInfix {body : Text}
    (hbody : headerBody? text = some body) : body <:+: text := by
  cases text with
  | nil => cases hbody
  | cons c rest =>
    rw [headerBody?] at hbody
    split at hbody
    · cases hbody
      exact (strip_isInfix _).trans ((List.dropLast_prefix rest).isInfix.trans
        (List.suffix_cons c rest).isInfix)
    · cases hbody

theorem forParts?_isInfix {content name source : Text}
    (hparts : forParts? content = some (name, source)) : source <:+: content := by
  unfold forParts? at hparts
  dsimp only at hparts
  split at hparts
  · rename_i c gap rest hspan
    split at hparts
    · obtain ⟨body, hbody, heq⟩ := Option.map_eq_some_iff.mp hparts
      cases heq
      have hrest : 'i' :: 'n' :: rest <:+ content := by
        rw [List.span_eq_takeWhile_dropWhile] at hspan
        rw [← (Prod.mk.inj hspan).2]
        exact (List.dropWhile_suffix _).trans ((List.drop_suffix _ _).trans
          ((List.dropWhile_suffix _).trans (List.drop_suffix _ _)))
      exact (headerBody?_isInfix hbody).trans
        ((List.suffix_append ['i', 'n'] rest).trans hrest).isInfix
    · cases hparts
  · cases hparts

theorem Line.content_prefix (line : Line) (indent : Nat) :
    line.content indent <+: line.text.drop indent := by
  obtain ⟨trail, -, hcode⟩ := exists_stripEnd (stripComment line.text)
  have hprefix : Text.stripEnd Text.isSpace (stripComment line.text) <+: line.text :=
    .trans ⟨trail, hcode.symm⟩ (beforeComment_isPrefix .outside line.text)
  exact hprefix.drop indent

/-- A part of what a line says is read on the line at the column where it is
found first. -/
theorem exists_columnOf (line : Line) (indent : Nat) {part : Text}
    (hpart : part <:+: line.content indent) :
    ∃ column, columnOf indent (line.content indent) part = column + 1 ∧
      part <+: line.text.drop column := by
  obtain ⟨k, hfind, hfound⟩ := exists_findFrom?_of_infix 0 hpart
  refine ⟨indent + k, ?_, ?_⟩
  · rw [columnOf, Text.find?, hfind, Nat.zero_add]
    rfl
  · rw [← List.drop_drop]
    exact hfound.trans ((line.content_prefix indent).drop k)

/-! ## Expressions on a line -/

/-- No bracket is open at the end of a line, so that nothing that is written on
it goes on below. -/
def Line.Closed (line : Line) : Prop :=
  balance (stripComment line.text) ≤ 0

instance (line : Line) : Decidable line.Closed :=
  inferInstanceAs (Decidable (_ ≤ _))

/-- The nodes of an expression have places on a line.  If the line is closed,
the place of a node is at the first character of the token that it is named for,
or of another one that is written alike. -/
def Line.Shows (line : Line) (e : Expr) : Prop :=
  ∀ node ∈ e.nodes, ∃ column : Nat, node.loc = some ⟨line.number, column + 1⟩ ∧
    (line.Closed → ∃ lexeme first more, Anchors lexeme node ∧
      Spelled lexeme (first :: more) ∧ first :: more <+: line.text.drop column)

theorem Spelled.exists_cons {lexeme : Lexeme} {piece : Text}
    (hspelled : Spelled lexeme piece) : ∃ first more, piece = first :: more := by
  cases hspelled with
  | symbol symbol => cases symbol <;> exact ⟨_, _, rfl⟩
  | number hne _ => exact List.exists_cons_of_ne_nil hne
  | word | string => exact ⟨_, _, rfl⟩

theorem Line.shows_of_parseExpr {line : Line} {column : Nat}
    (hread : line.parseExpr text (column + 1) = .ok e)
    (hplace : line.Closed → text <+: line.text.drop column) : line.Shows e := by
  obtain ⟨tokens, last, htokens, phrase, rfl, rfl⟩ :=
    Source.parseExpr_eq_ok_iff.mp (Line.parseExpr_eq_ok_iff.mp hread)
  intro node hnode
  obtain ⟨token, htoken, hloc, hanchors⟩ := phrase.anchored node hnode
  refine ⟨column + token.column, ?_, ?_⟩
  · rw [hloc, Location.shift]
    congr 2
    push_cast
    ring
  · intro hclosed
    obtain ⟨before, mark, hsame, hlexemes⟩ := tokenize_eq_ok htokens
    obtain ⟨rfl, -⟩ := List.append_inj' hsame rfl
    have hmark : token.lexeme ≠ .finish :=
      ne_finish_of_lexemes hlexemes _ (List.mem_map_of_mem htoken)
    obtain ⟨front, after, hsplit⟩ :=
      List.append_of_mem (List.mem_append_left [⟨.finish, last⟩] htoken)
    obtain ⟨lead, piece, rest, rfl, hcolumn, hspelled, -⟩ := exists_piece htokens hsplit hmark
    obtain ⟨first, more, rfl⟩ := hspelled.exists_cons
    refine ⟨token.lexeme, first, more, hanchors, hspelled, ?_⟩
    have hdrop := (hplace hclosed).drop lead.length
    rw [List.drop_left, List.drop_drop] at hdrop
    rw [hcolumn, Nat.zero_add]
    exact (List.prefix_append (first :: more) rest).trans hdrop

theorem eq_of_collect {line : Line} {whole : Text} {lines rest : List Line}
    (hcollect : collect line text lines = .ok (whole, rest))
    (hbalance : balance text ≤ 0) : whole = text := by
  cases collect_eq_ok_iff.mp hcollect with
  | done _ => rfl
  | more hopened _ => omega

theorem balance_around {lead trail : Text} (hlead : ∀ c ∈ lead, Text.isSpace c = true)
    (htrail : ∀ c ∈ trail, Text.isSpace c = true) :
    balance (lead ++ (text ++ trail)) = balance text := by
  have hflat : balance lead = 0 := balanceFrom_of_blank hlead _
  rw [balance_append (endsOutside_of_blank hlead), hflat, Int.zero_add, balance, balanceFrom_append,
    balanceFrom_of_blank htrail, Int.add_zero]
  rfl

theorem balance_strip (text : Text) : balance (Text.strip text) = balance text := by
  obtain ⟨lead, trail, hlead, htrail, hsplit⟩ := exists_strip text
  rw [← balance_around hlead htrail, ← hsplit]

section Statements

variable {line : Line} {indent : Nat}

theorem Line.Closed.balance_content (hclosed : line.Closed) (hsolid : isBlankLine line.text = false)
    (hindent : line.indent = .ok indent) : balance (line.content indent) ≤ 0 := by
  obtain ⟨trail, htrail, hcode, -⟩ := exists_content hsolid
  rw [Line.content_eq hindent]
  rwa [Line.Closed, hcode, balance_around isSpace_of_mem_replicate htrail] at hclosed

theorem Line.shows_of_parseSimple {lines rest : List Line} {statement : Statement}
    (hsolid : isBlankLine line.text = false) (hindent : line.indent = .ok indent)
    (hread : parseSimple line indent (line.content indent) lines = .ok (statement, rest)) :
    ∃ e, line.Shows e ∧ ((∃ name, statement = .assign name e (some ⟨line.number, indent + 1⟩)) ∨
        statement = .expr e (some ⟨line.number, indent + 1⟩)) := by
  rcases parseSimple_eq_ok_iff.mp hread with
    ⟨i, text, e, hfound, hname, -, hcollect, hexpr, rfl⟩ | ⟨text, e, -, hcollect, hexpr, rfl⟩
  · have hassigns := assigns_of_findAssignment hfound hname
    obtain ⟨column, hcolumn, hpart⟩ := exists_columnOf line indent
      ((strip_isInfix _).trans (List.drop_suffix (i + 1) (line.content indent)).isInfix)
    rw [hcolumn] at hexpr
    refine ⟨e, shows_of_parseExpr hexpr fun hclosed => ?_, .inl ⟨_, rfl⟩⟩
    have hbalance := hclosed.balance_content hsolid hindent
    rw [hassigns.balance, ← balance_strip] at hbalance
    rwa [eq_of_collect hcollect hbalance]
  · refine ⟨e, shows_of_parseExpr hexpr fun hclosed => ?_, .inr rfl⟩
    rw [eq_of_collect hcollect (hclosed.balance_content hsolid hindent)]
    exact line.content_prefix indent

theorem Line.Loops.shows {name : Text} (hloops : line.Loops indent name e) : line.Shows e := by
  obtain ⟨source, hparts, hexpr⟩ := hloops.parts
  obtain ⟨column, hcolumn, hpart⟩ := exists_columnOf line indent (forParts?_isInfix hparts)
  rw [hcolumn] at hexpr
  exact shows_of_parseExpr hexpr fun _ => hpart

theorem Line.Chooses.shows (hchooses : line.Chooses indent e) : line.Shows e := by
  obtain ⟨condition, hparts, hexpr⟩ := hchooses.parts
  obtain ⟨column, hcolumn, hpart⟩ := exists_columnOf line indent
    ((headerBody?_isInfix hparts).trans (List.drop_suffix 2 _).isInfix)
  rw [hcolumn] at hexpr
  exact shows_of_parseExpr hexpr fun _ => hpart

theorem Line.Branches.shows (hbranches : line.Branches indent e) : line.Shows e := by
  obtain ⟨condition, hparts, hexpr⟩ := hbranches.parts
  obtain ⟨column, hcolumn, hpart⟩ := exists_columnOf line indent
    ((headerBody?_isInfix hparts).trans (List.drop_suffix 4 _).isInfix)
  rw [hcolumn] at hexpr
  exact shows_of_parseExpr hexpr fun _ => hpart

end Statements

/-! ## The heads of a program -/

/-- What a line starts with an expression of: a statement with its place, or a
branch of a choice after its first one. -/
inductive Head where
  | statement (loc : Option Location) (expr : Expr)
  | branch (expr : Expr)

def Head.expr : Head → Expr
  | .statement _ e => e
  | .branch e => e

mutual

/-- The head of a statement, followed by the heads in its blocks and by those of
its branches, in the order in which they are written. -/
def Statement.heads : Statement → List Head
  | .assign _ value loc => [.statement loc value]
  | .expr value loc => [.statement loc value]
  | .forEach _ source body loc => .statement loc source :: headsBody body
  | .choose [] otherwise _ => headsOtherwise otherwise
  | .choose ((first, body) :: branches) otherwise loc =>
    .statement loc first ::
      (headsBody body ++ (headsBranches branches ++ headsOtherwise otherwise))
  | .misplaced _ => []

def headsBody : List Statement → List Head
  | [] => []
  | statement :: rest => statement.heads ++ headsBody rest

def headsBranches : List (Expr × List Statement) → List Head
  | [] => []
  | (condition, body) :: rest => .branch condition :: (headsBody body ++ headsBranches rest)

def headsOtherwise : Option (List Statement) → List Head
  | none => []
  | some body => headsBody body

end

/-- A head starts a line, and its expression has its places there. -/
structure Head.StandsOn (head : Head) (line : Line) : Prop where
  start : match head with
    | .statement loc _ => loc = some ⟨line.number, spaceCount line.text + 1⟩
    | .branch _ => "elif ".toList.isPrefixOf (contentOf line.text) = true
  shows : line.Shows head.expr

/-- The heads that a reader gives stand on the lines that it uses up. -/
def Judgement.Heads : Judgement → Prop
  | .block _ lines body rest => Takes Head.StandsOn lines rest (headsBody body)
  | .statement line indent lines read rest =>
    isBlankLine line.text = false → line.indent = .ok indent →
      Takes Head.StandsOn (line :: lines) rest read.heads
  | .child _ lines body rest => Takes Head.StandsOn lines rest (headsBody body)
  | .branches _ none lines read otherwise rest =>
    Takes Head.StandsOn lines rest
      (headsBranches read ++ headsOtherwise otherwise)
  | .branches _ (some before) _ read otherwise _ => read = [] ∧ otherwise = some before

theorem Head.standsOn_statement {line : Line} {indent : Nat} (hindent : line.indent = .ok indent)
    (hshows : line.Shows e) :
    (Head.statement (some ⟨line.number, indent + 1⟩) e).StandsOn line := by
  rw [Line.indent_eq_spaceCount hindent]
  exact ⟨rfl, hshows⟩

theorem Parses.heads {judgement : Judgement} (hparses : Parses judgement) : judgement.Heads := by
  induction hparses with
  | finish hnext => exact .of_skipBlank hnext (.refl [])
  | dedent hnext _ _ => exact .of_skipBlank hnext (.refl _)
  | cons hnext hindent _ _ ihFirst ihOthers =>
    have hfirst := ihFirst (not_blank_of_skipBlank hnext) hindent
    exact .of_skipBlank hnext (hfirst.trans ihOthers)
  | forEach hheader _ ihChild =>
    intro hsolid hindent
    exact .cons (Head.standsOn_statement hindent hheader.shows) ihChild
  | choose hheader _ _ ihChild ihOthers =>
    intro hsolid hindent
    exact .cons (Head.standsOn_statement hindent hheader.shows) (ihChild.trans ihOthers)
  | @simple _ lines last _ _ _ hread =>
    intro hsolid hindent
    have hrest : Takes Head.StandsOn lines last [] := .of_suffix (parseSimple_suffix hread)
    obtain ⟨e, hshows, ⟨name, rfl⟩ | rfl⟩ := Line.shows_of_parseSimple hsolid hindent hread
    · exact .cons (Head.standsOn_statement hindent hshows) hrest
    · exact .cons (Head.standsOn_statement hindent hshows) hrest
  | child hnext _ _ _ ihBlock => exact .of_skipBlank hnext ihBlock
  | @noLine _ before _ hnext =>
    cases before with
    | none => exact .of_skipBlank hnext (.refl [])
    | some body => exact ⟨rfl, rfl⟩
  | @noBranch _ _ before _ _ _ hnext _ _ =>
    cases before with
    | none => exact .of_skipBlank hnext (.refl _)
    | some body => exact ⟨rfl, rfl⟩
  | @elif _ _ rest _ _ line e _ _ _ hnext hindent hheader _ _ ihChild ihOthers =>
    have hbranch : (Head.branch e).StandsOn line :=
      ⟨Line.content_eq hindent ▸ hheader.word, hheader.shows⟩
    have hblocks := Takes.cons hbranch (ihChild.trans ihOthers)
    rw [← List.append_assoc] at hblocks
    exact .of_skipBlank hnext hblocks
  | @otherwise _ _ rest _ _ line _ _ _ hnext _ _ _ hothers ihChild ihOthers =>
    obtain ⟨rfl, rfl⟩ := ihOthers
    have hheader : Takes Head.StandsOn (line :: rest) rest [] :=
      .of_suffix (List.suffix_cons line rest)
    have hblocks := ihChild.trans (Takes.of_suffix hothers.suffix)
    rw [List.append_nil] at hblocks
    exact .of_skipBlank hnext (hheader.trans hblocks)

/-- An assignment whose value is first found in its target, and a choice with two
branches. -/
def earlySource : Text :=
  "ab = b\nif f(-ab):\n  ab\nelif [b:1] == 'f':\n  ab.b".toList

end Folio.Source
