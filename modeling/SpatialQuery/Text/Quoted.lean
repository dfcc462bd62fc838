/-!
Quoted text: between quotes, a quote is written twice.
-/

namespace SpatialQuery.Text

/-- Every quote written twice. -/
def double (q : Char) (cs : List Char) : List Char :=
  cs.flatMap fun c => if c == q then [q, q] else [c]

/-- Every pair of quotes read as one. -/
def undouble (q : Char) : List Char → List Char
  | a :: b :: cs => if a == q && b == q then q :: undouble q cs else a :: undouble q (b :: cs)
  | cs => cs

def quote (q : Char) (cs : List Char) : List Char :=
  q :: double q cs ++ [q]

/-- A text between double quotes, as identifiers are quoted. -/
def quoted (s : String) : String :=
  String.ofList (quote '"' s.toList)

theorem double_cons (q c : Char) (cs : List Char) :
    double q (c :: cs) = (if c == q then [q, q] else [c]) ++ double q cs := rfl

theorem undouble_cons_of_ne {q a : Char} (h : (a == q) = false) (cs : List Char) :
    undouble q (a :: cs) = a :: undouble q cs := by
  cases cs with
  | nil => simp [undouble]
  | cons b bs => simp [undouble, h]

theorem undouble_double (q : Char) (cs : List Char) : undouble q (double q cs) = cs := by
  induction cs with
  | nil => rfl
  | cons c cs ih =>
    cases h : c == q with
    | true => simp [double_cons, undouble, ih, eq_of_beq h]
    | false => simp [double_cons, undouble_cons_of_ne h, ih, h]

end SpatialQuery.Text
