import CallTargets.Program.Id
/-!
# What can be wrong with a program

The reasons for which a request to build a program, or a program document, is refused.
-/

namespace CallTargets

/-- What a value was expected to be by the record that names it. -/
inductive Role where
  | globalAddress
  | functionAddress
  | argument
  | blockInstruction
  | earlierConstant
  deriving DecidableEq, Repr

def Role.text : Role → String
  | globalAddress => "address of its global"
  | functionAddress => "address of its function"
  | argument => "argument at its parameter position"
  | blockInstruction => "instruction of the block listing it"
  | earlierConstant => "constant built from earlier values"

/-- A reason to refuse a program or a request. Types are given as they are printed. -/
inductive Fault where
  | invalidType (id : TypeId)
  | invalidValue (id : ValueId)
  /-- A type other than a named struct is made of one that does not come before it. -/
  | forwardType (id : TypeId)
  | invalidFunction (id : FunctionId)
  | invalidGlobal (id : GlobalId)
  | invalidModule (id : ModuleId)
  | invalidBlock (function : FunctionId) (block : BlockId)
  | inconsistent (value : ValueId) (expected : Role)
  | notNamedStruct (id : TypeId)
  | notPointer (value : ValueId) (type : String)
  | notCallable (value : ValueId) (type : String)
  | notFunctionType (type : String)
  | badIndex (index : Option Int) (type : String)
  | noSuchParam (function : String) (index : Nat)
  /-- A document that is not one of a program. -/
  | malformed
  deriving DecidableEq, Repr

def Fault.message? : Fault → Option String
  | invalidType t => some ("invalid type id: " ++ t.label)
  | invalidValue v => some ("invalid value id: " ++ v.label)
  | forwardType t => some ("type " ++ t.label ++ " refers forward outside a named struct")
  | invalidFunction f => some ("invalid function id: " ++ f.label)
  | invalidGlobal g => some ("invalid global id: " ++ g.label)
  | invalidModule m => some ("invalid module id: " ++ m.label)
  | invalidBlock f b => some ("function " ++ f.label ++ " has no block " ++ b.label)
  | inconsistent v expected => some (v.label ++ " is not the " ++ expected.text)
  | notNamedStruct t => some ("type " ++ t.label ++ " is not a named struct")
  | notPointer v type => some ("value " ++ v.label ++ " of type `" ++ type ++ "` is not a pointer")
  | notCallable v type => some ("value " ++ v.label ++ " of type `" ++ type ++ "` is not callable")
  | notFunctionType type => some ("`" ++ type ++ "` is not a function type")
  | badIndex index type =>
    some ("index " ++ indexText index ++ " is out of range for `" ++ type ++ "`")
  | noSuchParam f index => some ("function " ++ f ++ " has no parameter " ++ toString index)
  | malformed => none
where
  indexText : Option Int → String
    | some n => "Some(" ++ toString n ++ ")"
    | none => "None"

end CallTargets
