import Vetting.Fault

/-!
# Refusals

What a check answers when it does not pass. Only `invalid` speaks about the
object in the form of a report; any other failure is a text.
-/

namespace Vetting

inductive Mismatch where
  | kind (found : Json) (wanted : String)
  | range (found : Int) (wanted : String)

/-- The kind of a value, with the value where it is short. -/
def Json.describe : Json → String
  | null => "null"
  | bool b => "boolean `" ++ (if b then "true" else "false") ++ "`"
  | number (.whole n) => "integer `" ++ toString n ++ "`"
  | number (.real x) => "floating point `" ++ .ofList (x.write) ++ "`"
  | string s => "string " ++ Shown.quote s
  | array _ => "sequence"
  | object _ => "map"
  | unreadable => "nothing"

def Mismatch.message : Mismatch → String
  | kind found wanted => "invalid type: " ++ found.describe ++ ", expected " ++ wanted
  | range n wanted => "invalid value: integer `" ++ toString n ++ "`, expected " ++ wanted

inductive Misnumber where
  | empty
  | digit
  | tooLarge
  | tooSmall

def Misnumber.message : Misnumber → String
  | empty => "cannot parse integer from empty string"
  | digit => "invalid digit found in string"
  | tooLarge => "number too large to fit in target type"
  | tooSmall => "number too small to fit in target type"

inductive Trouble where
  | missingArgument (name : String)
  | badArgument (name : String) (why : Mismatch)
  | badNumber (why : Misnumber)
  | other (text : String)

def Trouble.message : Trouble → String
  | missingArgument name => "missing required argument '" ++ name ++ "'"
  | badArgument name why => "invalid argument '" ++ name ++ "': " ++ why.message
  | badNumber why => why.message
  | other text => text

inductive Refusal where
  | invalid (report : Report)
  | deferred (deferral : Deferral)
  | breach (text : String)
  | trouble (cause : Trouble)

namespace Refusal

def because (text : String) : Refusal := invalid (.message text)

def kind : Refusal → String
  | invalid _ => "Invalid"
  | deferred _ => "NonTrivialDependency"
  | breach _ => "Assertion"
  | trouble _ => "Other"

def message : Refusal → String
  | invalid report => report.text
  | deferred d => d.message
  | breach text => text
  | trouble cause => cause.message

end Refusal

end Vetting
