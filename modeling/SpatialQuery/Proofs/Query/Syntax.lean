import SpatialQuery.Proofs.Lexical.Plain
import SpatialQuery.Relation.Reads

/-!
Syntax trees of queries, as far as it matters which relations they read: items of `FROM` lists, joins,
`WITH` clauses, and expressions with queries anywhere inside. A tree spells a list of tokens; keywords
may be in any letter case, and names may be quoted or not.
-/

namespace SpatialQuery.Query

open Token Lexical Reads

/-- Words that no name without quotes may be. -/
def reserved : List String :=
  clauseKeywords ++ ["select", "from", "table", "as", "lateral", "only"]

/-- The parts of a query begin and end at other tokens than this one. -/
def isQuiet (t : Token) : Bool :=
  !t.isPunct '(' && !t.isPunct ')' && !t.isAnyKeyword ["select", "from", "join", "table", "with"]

/-- One of the keywords. -/
structure Keyword (words : List String) where
  token : Token
  spelled : token.isAnyKeyword words = true

structure Word where
  token : Token
  quiet : isQuiet token = true

structure Ident where
  token : Token
  named : token.name?.isSome = true
  free : token.isAnyKeyword reserved = false

def Ident.name (i : Ident) : String :=
  i.token.name?.get i.named

def comma : Token :=
  ⟨.punct ',', [',']⟩

def dot : Token :=
  ⟨.punct '.', ['.']⟩

/-- The name of a table or a function, with the schema in front. -/
structure Name where
  first : Ident
  others : List Ident

def Name.tokens (n : Name) : List Token :=
  n.first.token :: n.others.flatMap fun i => [dot, i.token]

def keywordTokens {words : List String} (ks : List (Keyword words)) : List Token :=
  ks.map Keyword.token

/-- The words in front of `JOIN`. -/
structure JoinKind where
  words : List (Keyword ["inner", "left", "right", "full", "outer", "cross", "natural"])
  first : ∀ k ∈ words.head?, k.token.isKeyword "outer" = false

/-- A name that a `WITH` clause defines, and the words around its query. -/
structure Definition where
  name : Ident
  notRecursive : name.token.isKeyword "recursive" = false
  as : Keyword ["as"]
  not : List (Keyword ["not"])
  materialized : List (Keyword ["materialized"])
  single : not.length ≤ 1 ∧ materialized.length ≤ 1

/-- The words between the name and its query, as in `AS NOT MATERIALIZED`. -/
def Definition.words (d : Definition) : List Token :=
  d.as.token :: (keywordTokens d.not ++ keywordTokens d.materialized)

/-- The words that begin what follows a joined item, and what follows a `FROM` list: its clauses, or a
query in parentheses that it is combined with. -/
def openings (joined : Bool) : List String :=
  if joined then ["on", "using"]
  else ["where", "group", "having", "window", "order", "limit", "offset", "fetch", "for", "union",
    "intersect", "except"]

/-- The parts of the grammar. -/
inductive Part where
  /-- An expression, or several; inside of a call, `FROM` may stand between them. -/
  | expr (inCall : Bool)
  | columns
  | label
  | item
  | clause (joined : Bool)
  /-- What follows an item: joins, and in a `FROM` list commas with more items. -/
  | more (commas : Bool)
  | body
  | definitions (isRecursive : Bool)
  | query

inductive Tree : Part → Type
  | done {c : Bool} : Tree (.expr c)
  | word {c : Bool} (w : Word) (rest : Tree (.expr c)) : Tree (.expr c)
  /-- `IS DISTINCT FROM` and `IS NOT DISTINCT FROM`. -/
  | distinct {c : Bool} (is : Keyword ["is", "not"]) (distinct : Keyword ["distinct"])
      (fr : Keyword ["from"]) (rest : Tree (.expr c)) : Tree (.expr c)
  /-- `WITH TIME ZONE` in the name of a type. -/
  | zone {c : Bool} (w : Keyword ["with"]) (time : Keyword ["time"]) (zone : Keyword ["zone"])
      (rest : Tree (.expr c)) : Tree (.expr c)
  | argument (fr : Keyword ["from"]) (rest : Tree (.expr true)) : Tree (.expr true)
  | group {c : Bool} (inner : Tree (.expr true)) (rest : Tree (.expr c)) : Tree (.expr c)
  | subquery {c : Bool} (q : Tree .query) (rest : Tree (.expr c)) : Tree (.expr c)
  | noColumns : Tree .columns
  | columns (inner : Tree (.expr true)) : Tree .columns
  | noLabel : Tree .label
  | label (as : List (Keyword ["as"])) (single : as.length ≤ 1) (name : Ident)
      (columns : Tree .columns) : Tree .label
  | table (marks : List (Keyword ["lateral", "only"])) (name : Name) (label : Tree .label) :
      Tree .item
  | call (marks : List (Keyword ["lateral", "only"])) (name : Name)
      (arguments : Tree (.expr true)) (label : Tree .label) : Tree .item
  | derived (marks : List (Keyword ["lateral", "only"])) (q : Tree .query) (label : Tree .label) :
      Tree .item
  /-- Joined items in parentheses. -/
  | nested (first : Tree .item) (joins : Tree (.more false)) (label : Tree .label) : Tree .item
  | noClause {j : Bool} : Tree (.clause j)
  | clause {j : Bool} (k : Keyword (openings j)) (e : Tree (.expr false)) : Tree (.clause j)
  | stop {c : Bool} : Tree (.more c)
  | join {c : Bool} (kind : JoinKind) (k : Keyword ["join"]) (right : Tree .item)
      (condition : Tree (.clause true)) (rest : Tree (.more c)) : Tree (.more c)
  | comma (next : Tree .item) (rest : Tree (.more true)) : Tree (.more true)
  | select (k : Keyword ["select"]) (list : Tree (.expr false)) : Tree .body
  | selectFrom (k : Keyword ["select"]) (list : Tree (.expr false)) (fr : Keyword ["from"])
      (first : Tree .item) (more : Tree (.more true)) (clauses : Tree (.clause false)) : Tree .body
  | operand (q : Tree .query) (clauses : Tree (.clause false)) : Tree .body
  | combined (left : Tree .body) (op : Keyword ["union", "intersect", "except"])
      (mode : List (Keyword ["all", "distinct"])) (right : Tree .body) : Tree .body
  | last {r : Bool} (d : Definition) (columns : Tree .columns) (q : Tree .query) (body : Tree .body) :
      Tree (.definitions r)
  | define {r : Bool} (d : Definition) (columns : Tree .columns) (q : Tree .query)
      (rest : Tree (.definitions r)) : Tree (.definitions r)
  | plain (body : Tree .body) : Tree .query
  | withNames (k : Keyword ["with"]) (definitions : Tree (.definitions false)) : Tree .query
  | withRecursive (k : Keyword ["with"]) (r : Keyword ["recursive"])
      (definitions : Tree (.definitions true)) : Tree .query

namespace Tree

def tokens : {p : Part} → Tree p → List Token
  | _, done => []
  | _, word w rest => w.token :: rest.tokens
  | _, distinct is d fr rest => is.token :: d.token :: fr.token :: rest.tokens
  | _, zone w time z rest => w.token :: time.token :: z.token :: rest.tokens
  | _, argument fr rest => fr.token :: rest.tokens
  | _, group inner rest => openParen :: (inner.tokens ++ closeParen :: rest.tokens)
  | _, subquery q rest => openParen :: (q.tokens ++ closeParen :: rest.tokens)
  | _, noColumns => []
  | _, columns inner => openParen :: (inner.tokens ++ [closeParen])
  | _, noLabel => []
  | _, label as _ name cs => keywordTokens as ++ name.token :: cs.tokens
  | _, table marks name l => keywordTokens marks ++ (name.tokens ++ l.tokens)
  | _, call marks name args l =>
    keywordTokens marks ++ (name.tokens ++ openParen :: (args.tokens ++ closeParen :: l.tokens))
  | _, derived marks q l => keywordTokens marks ++ openParen :: (q.tokens ++ closeParen :: l.tokens)
  | _, nested first joins l =>
    openParen :: (first.tokens ++ (joins.tokens ++ closeParen :: l.tokens))
  | _, noClause => []
  | _, clause k e => k.token :: e.tokens
  | _, stop => []
  | _, join kind k right condition rest =>
    keywordTokens kind.words ++ k.token :: (right.tokens ++ (condition.tokens ++ rest.tokens))
  | _, comma next rest => Query.comma :: (next.tokens ++ rest.tokens)
  | _, select k list => k.token :: list.tokens
  | _, selectFrom k list fr first more clauses =>
    k.token :: (list.tokens ++ fr.token :: (first.tokens ++ (more.tokens ++ clauses.tokens)))
  | _, operand q clauses => openParen :: (q.tokens ++ closeParen :: clauses.tokens)
  | _, combined left op mode right => left.tokens ++ op.token :: (keywordTokens mode ++ right.tokens)
  | _, last d cs q body => d.name.token :: (cs.tokens ++ (d.words ++
      openParen :: (q.tokens ++ closeParen :: body.tokens)))
  | _, define d cs q rest => d.name.token :: (cs.tokens ++ (d.words ++
      openParen :: (q.tokens ++ closeParen :: Query.comma :: rest.tokens)))
  | _, plain body => body.tokens
  | _, withNames k ds => k.token :: ds.tokens
  | _, withRecursive k r ds => k.token :: r.token :: ds.tokens

-- The equations are made here, once for all the modules that unfold the definition.
attribute [grind =] tokens

/-- The number of tokens. -/
def size {p : Part} (t : Tree p) : Nat :=
  t.tokens.length

end Tree

end SpatialQuery.Query
