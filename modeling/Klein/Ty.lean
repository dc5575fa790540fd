import Klein.Text.Lines

namespace Klein

/-- What is known about the type of a node. An expression whose branches differ may have either
    type, and a fault below a node leaves it with the error annotation. -/
inductive Ty
  | empty
  | integer
  | boolean
  | error
  | sequence (items : List Ty)
  | union (options : List Ty)
  | function (source : List Ty) (result : Ty)
deriving Repr, Inhabited

namespace Ty

mutual

def toString : Ty → String
  | empty => "None"
  | integer => "Integer"
  | boolean => "Boolean"
  | error => "Error"
  | sequence items => "(" ++ Text.join ", " (toStrings items) ++ ")"
  | union options => "\x7b" ++ Text.join " OR " (toStrings options) ++ "\x7d"
  | function source result => "(" ++ Text.join ", " (toStrings source) ++ ") -> " ++ result.toString

def toStrings : List Ty → List String
  | [] => []
  | a :: rest => a.toString :: toStrings rest

end

/-- The name of the form of an annotation. -/
def form : Ty → String
  | empty => "EmptyAnnotation"
  | integer => "IntegerAnnotation"
  | boolean => "BooleanAnnotation"
  | error => "ErrorAnnotation"
  | sequence _ => "SequenceAnnotation"
  | union _ => "UnionAnnotation"
  | function _ _ => "FunctionAnnotation"

/-- The two annotations are the same simple one: none of them has parts. -/
def sameSimple : Ty → Ty → Bool
  | empty, empty => true
  | integer, integer => true
  | boolean, boolean => true
  | error, error => true
  | _, _ => false

/-- A simple annotation agrees with itself and with a union that offers it. -/
def simpleAgrees (a : Ty) : Ty → Bool
  | union options => options.any a.sameSimple
  | b => a.sameSimple b

mutual

/-- Agreement of annotations, or its converse. Sequences and functions agree part by part. A union
    agrees only with a union, and only if some option there agrees with each of its options, the
    sides being exchanged. Agreement is not symmetric: a simple annotation agrees with a union that
    offers it, and the union does not agree with it. -/
def agreesOr (converse : Bool) : Ty → Ty → Bool
  | sequence items, b =>
    match b with
    | sequence others => agreeEach converse items others
    | _ => false
  | function source result, b =>
    match b with
    | function source' result' => agreeEach converse source source' && agreesOr converse result result'
    | _ => false
  | union options, b =>
    match b with
    | union others =>
      if converse then others.all fun b => agreeSome options b else agreeAll options others
    | b => converse && options.any b.sameSimple
  | a, b => if converse then a.sameSimple b else simpleAgrees a b

/-- The annotations of two lists of one length agree pairwise. -/
def agreeEach (converse : Bool) : List Ty → List Ty → Bool
  | [], [] => true
  | a :: as, b :: bs => agreesOr converse a b && agreeEach converse as bs
  | _, _ => false

/-- Each annotation of the first list is met by some annotation of the second that agrees with it. -/
def agreeAll : List Ty → List Ty → Bool
  | [], _ => true
  | a :: as, others => (others.any fun b => agreesOr true a b) && agreeAll as others

/-- Some annotation of a list agrees with the given one. -/
def agreeSome : List Ty → Ty → Bool
  | [], _ => false
  | a :: as, b => agreesOr false a b || agreeSome as b

end

/-- Whether an annotation will do where another is wanted. -/
def agrees (a b : Ty) : Bool :=
  agreesOr false a b

end Ty

end Klein
