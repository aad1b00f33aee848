import MarkupSpans.Number

/-!
# Expressions

What stands after the equals sign of an attribute: a text, a number, a dotted name that refers to
a binding, or a call of one.  Here are their written forms; `Evaluation` says what they mean.
Every expression has a written form (`print`), but it comes to be written (`write`) only if all
integers in it are writable.
-/

set_option autoImplicit false

namespace MarkupSpans

/-- The value of an attribute as the markup writes it. -/
inductive Expr where
  | text (content : String)
  | number (n : Number)
  | ref (name : String)
  /-- A call of what a dotted name stands for. -/
  | call (name : String) (args : List Expr)

/-- A literal text between double quotes, or single ones if it holds a double one; literals have
no escapes. -/
def quoteLiteral (content : String) : String :=
  if content.toList.contains '\x22' then "'" ++ content ++ "'" else "\"" ++ content ++ "\""

namespace Expr

instance : Inhabited Expr := ⟨.text ""⟩

mutual

/-- The written form of an expression. -/
def print : Expr → String
  | .text content => quoteLiteral content
  | .number n => n.text
  | .ref name => name
  | .call name args => name ++ "(" ++ ", ".intercalate (printAll args) ++ ")"

/-- The written forms of several expressions. -/
def printAll : List Expr → List String
  | [] => []
  | e :: rest => e.print :: printAll rest

end

/-- The written form behind the equals sign of an attribute: names and calls stand in braces. -/
def printAttribute : Expr → String
  | .text content => quoteLiteral content
  | .number n => n.text
  | e => "\x7b" ++ e.print ++ "\x7d"

mutual

/-- Whether all numbers of an expression are writable. -/
def isWritable : Expr → Bool
  | .number n => n.isWritable
  | .call _ args => areWritable args
  | _ => true

/-- Whether all numbers of some expressions are writable. -/
def areWritable : List Expr → Bool
  | [] => true
  | e :: rest => e.isWritable && areWritable rest

end

/-- The text of an expression, if all its numbers are writable. -/
def write (e : Expr) : Except ValueFault String := writtenIf e.isWritable e.print

/-- The text of an attribute's expression, if all its numbers are writable. -/
def writeAttribute (e : Expr) : Except ValueFault String := writtenIf e.isWritable e.printAttribute

mutual

/-- Whether two expressions are alike, where numbers count by value. -/
def same : Expr → Expr → Bool
  | .text s, .text t => s == t
  | .number m, .number n => m.same n
  | .ref a, .ref b => a == b
  | .call a xs, .call b ys => a == b && sameAll xs ys
  | _, _ => false

/-- Whether two rows of expressions are alike, one by one. -/
def sameAll : List Expr → List Expr → Bool
  | [], [] => true
  | x :: xs, y :: ys => x.same y && sameAll xs ys
  | _, _ => false

end

/-- What messages call an expression's sort. -/
def sortName : Expr → String
  | .text _ => "StringValue"
  | .number _ => "NumberValue"
  | .ref _ => "Reference"
  | .call _ _ => "Call"

end Expr

end MarkupSpans
