import TypedScript.Text.Quoted
import TypedScript.Type.Basic

/-!
# The text of a type

How types are written in messages. Classes, enums, references, parameters and named
interfaces are written by name; an unnamed interface lists its properties.
-/
namespace TypedScript

/-- Mark the last of the parameter texts as taking the remaining arguments. -/
def markVariadic : List String → List String
  | [] => []
  | [p] => ["..." ++ p]
  | p :: ps => p :: markVariadic ps

mutual

def Ty.text : Ty → String
  | .prim p => p.name
  | .list t => "List<" ++ t.text ++ ">"
  | .map k v => "Map<" ++ k.text ++ ", " ++ v.text ++ ">"
  | .nullable t => t.text ++ "?"
  | .union ms => " | ".intercalate (Ty.texts ms)
  | .function ⟨params, result, isVariadic, typeParams⟩ =>
    let names := if typeParams.isEmpty then ""
      else "<" ++ ", ".intercalate (typeParams.map TypeParam.name) ++ ">"
    let texts := Ty.paramTexts params
    let texts := if isVariadic then markVariadic texts else texts
    "fn" ++ names ++ "(" ++ ", ".intercalate texts ++ ") -> " ++ result.text
  | .interface ⟨name, properties, _⟩ =>
    if name = "" then "\x7b " ++ ", ".intercalate (Ty.propertyTexts properties) ++ " \x7d"
    else name
  | .cls c => c.name
  | .enum e => e.name
  | .future t => "Future<" ++ t.text ++ ">"
  | .ref name _ => name
  | .param name => name
  | .generic base args => base.text ++ "<" ++ ", ".intercalate (Ty.texts args) ++ ">"
termination_by structural t => t

def Ty.texts : List Ty → List String
  | [] => []
  | t :: ts => t.text :: Ty.texts ts
termination_by structural ts => ts

def Ty.paramTexts : List Param → List String
  | [] => []
  | ⟨_, t⟩ :: ps => t.text :: Ty.paramTexts ps
termination_by structural ps => ps

def Ty.propertyTexts : List Property → List String
  | [] => []
  | ⟨name, t, isOptional⟩ :: ps =>
    (name ++ (if isOptional then "?: " else ": ") ++ t.text) :: Ty.propertyTexts ps
termination_by structural ps => ps

end

namespace Param

/-- A parameter with its name, where it has one. -/
def text (p : Param) : String :=
  if p.name = "" then p.type.text else p.name ++ ": " ++ p.type.text

end Param

namespace Signature

def text (sig : Signature) : String := (Ty.function sig).text

end Signature

namespace EnumValue

/-- An integer in decimal, a string in quotes. -/
def text : EnumValue → String
  | int n => toString n
  | str s => Text.quote s

end EnumValue

namespace Interface

def text (shape : Interface) : String := (Ty.interface shape).text

end Interface

end TypedScript
