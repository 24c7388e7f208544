import CallTargets.Text.Basic
/-!
# Types named by a symbol

A mangled symbol spells types. `Shape` keeps as much of their structure as printing
needs: indirections of function and array types print around the declarator, all
other types print from the inside out.
-/

namespace CallTargets.Symbol

inductive Qualifier where
  | restrict
  | volatile
  | const
  | lvalue
  | rvalue
  deriving DecidableEq, Repr

def Qualifier.text : Qualifier → String
  | restrict => " restrict"
  | volatile => " volatile"
  | const => " const"
  | lvalue => " &"
  | rvalue => " &&"

def qualifierText (qs : List Qualifier) : String := qs.foldl (fun t q => t ++ q.text) ""

inductive Shape where
  /-- A type that is already printed. -/
  | name (text : String)
  | pointer (inner : Shape)
  | lvalueRef (inner : Shape)
  | rvalueRef (inner : Shape)
  | qualified (inner : Shape) (quals : List Qualifier)
  | function (ret : Shape) (params : List Shape) (quals : List Qualifier)
  | array (length : String) (element : Shape)
  | pack (inner : Shape)
  deriving Inhabited, Repr

namespace Shape

def isVoidList : List Shape → Bool
  | [name text] => text == "void"
  | _ => false

mutual

/-- The printed type. A pointer or reference to a function or an array stands in
parentheses at the place of the declarator; further indirections follow the whole. -/
def render : Shape → String
  | name text => text
  | pointer inner => inner.renderUnder "*"
  | lvalueRef inner => inner.renderUnder "&"
  | rvalueRef inner => inner.renderUnder "&&"
  | qualified inner quals => inner.render ++ qualifierText quals
  | function ret params quals =>
    ret.render ++ " (" ++ (if isVoidList params then "" else renderAll params) ++ ")" ++
      qualifierText quals
  | array length element => element.render ++ " [" ++ length ++ "]"
  | pack inner => inner.render ++ "..."

def renderUnder (sign : String) : Shape → String
  | function ret params quals =>
    ret.render ++ " (" ++ sign ++ ")(" ++ (if isVoidList params then "" else renderAll params) ++
      ")" ++ qualifierText quals
  | array length element => element.render ++ " (" ++ sign ++ ") [" ++ length ++ "]"
  | name text => text ++ sign
  | pointer inner => inner.renderUnder "*" ++ sign
  | lvalueRef inner => inner.renderUnder "&" ++ sign
  | rvalueRef inner => inner.renderUnder "&&" ++ sign
  | qualified inner quals => inner.render ++ qualifierText quals ++ sign
  | pack inner => inner.render ++ "..." ++ sign

def renderAll : List Shape → String
  | [] => ""
  | [shape] => shape.render
  | shape :: shapes => shape.render ++ ", " ++ renderAll shapes

end

def renderParams (params : List Shape) : String :=
  if isVoidList params then "" else renderAll params

def renderArgs (args : List Shape) : String := "<" ++ renderAll args ++ ">"

end Shape

end CallTargets.Symbol
