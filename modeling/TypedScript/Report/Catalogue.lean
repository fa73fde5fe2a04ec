import TypedScript.Report.Diagnostic

/-!
# The catalogue of diagnostics

The codes, and the diagnostics that are raised in more than one place.
-/
namespace TypedScript

namespace Code

def typeMismatch : String := "T0001"
def undefinedSymbol : String := "T0002"
def redeclaredSymbol : String := "T0003"
def invalidOperation : String := "T0004"
def notCallable : String := "T0005"
def wrongArgumentCount : String := "T0006"
def invalidAssignment : String := "T0007"
def notIndexable : String := "T0008"
def fieldNotFound : String := "T0010"
def invalidReturn : String := "T0016"
def missingReturn : String := "T0017"
def constantReassignment : String := "T0018"
def invalidBreak : String := "T0019"
def invalidContinue : String := "T0020"
def invalidType : String := "T0021"
def unresolvedReference : String := "T0028"
def notAClass : String := "T0029"
def invalidThis : String := "T0030"
def invalidSuper : String := "T0031"
def invalidAwait : String := "T0032"
def invalidSpread : String := "T0033"
def invalidEnumValue : String := "T0034"
def visibility : String := "T0035"
def superclassNotFound : String := "T0036"
def constraintViolation : String := "T0037"
def unreachableCode : String := "W0001"

end Code

namespace Diagnostic

def undefinedSymbol (file : String) (place : Option Location) (name : String) : Diagnostic :=
  error ("undefined symbol: " ++ name)
    |>.withCode Code.undefinedSymbol
    |>.withPrimary file place "not found in this scope"
    |>.withHelp "check if the symbol is declared before it is used"

/-- A name declared twice, with the place of the earlier declaration where known. -/
def redeclared (file : String) (place earlier : Option Location) (name : String) : Diagnostic :=
  let d := error (name ++ " is already declared")
    |>.withCode Code.redeclaredSymbol
    |>.withPrimary file place "redeclared here"
  let d := if earlier.isSome then d.withContext file earlier "previously declared here" else d
  d.withHelp "use a different name or remove one of the declarations"

def wrongArgumentCount (file : String) (place : Option Location) (expected found : Int) :
    Diagnostic :=
  error "wrong number of arguments"
    |>.withCode Code.wrongArgumentCount
    |>.withPrimary file place
      ("expected " ++ toString expected ++ " argument(s), found " ++ toString found)

def fieldNotFound (file : String) (place : Option Location) (field typeName : String) :
    Diagnostic :=
  error ("field " ++ field ++ " not found")
    |>.withCode Code.fieldNotFound
    |>.withPrimary file place (typeName ++ " has no field " ++ field)
    |>.withHelp "check the field name spelling"

def notAssignable (file : String) (place : Option Location) (value target : String) : Diagnostic :=
  error (value ++ " not assignable to " ++ target)
    |>.withCode Code.typeMismatch
    |>.withPrimary file place ("expected " ++ target)

def unresolvedReference (file : String) (place : Option Location) (name : String) : Diagnostic :=
  error ("cannot check assignability of unresolved type reference " ++ name)
    |>.withCode Code.unresolvedReference
    |>.withPrimary file place (name ++ " is not resolved")
    |>.withHelp ("declare " ++ name ++ " or fix the annotation")

def notAClass (file : String) (place : Option Location) (name : String) : Diagnostic :=
  error (name ++ " is not a class")
    |>.withCode Code.notAClass
    |>.withPrimary file place "expected a class"

def notCallable (file : String) (place : Option Location) (typeName : String) : Diagnostic :=
  error ("cannot call a value of type " ++ typeName)
    |>.withCode Code.notCallable
    |>.withPrimary file place "not a function"

end Diagnostic

end TypedScript
