/-!
# Paths

A path is a text with the names of the steps between slashes. Paths are kept as they are given,
because messages show them that way; this module takes them apart.
-/

namespace NativeExports.Path

def steps (path : String) : List String :=
  (path.toList.splitOn '/').map String.ofList

/-- Whether a step stays where it is. -/
def isIdle (step : String) : Bool :=
  step == "" || step == "."

def stepLimit : Nat := 255

def limit : Nat := 4095

/-- The steps up to the last one that goes somewhere, in reverse order. -/
def reversedSteps (path : String) : List String :=
  (steps path).reverse.dropWhile isIdle

/-- The last name of a path, unless the path ends by going up. -/
def lastName? (path : String) : Option String :=
  match reversedSteps path with
  | [] => none
  | name :: _ => if name == ".." then none else some name

def replaceName (path name : String) : String :=
  match lastName? path with
  | some _ => "/".intercalate ((reversedSteps path).tail.reverse ++ [name])
  | none =>
    match path.toList.getLast? with
    | none | some '/' => path ++ name
    | _ => path ++ "/" ++ name

/-- A name without what follows its last dot. A dot at the beginning belongs to the name. -/
def stem (name : String) : String :=
  match (name.toList.splitOn '.').reverse with
  | _ :: rest =>
    let stem := ".".intercalate (rest.reverse.map String.ofList)
    if stem == "" then name else stem
  | [] => name

def replaceExtension (path extension : String) : String :=
  match lastName? path with
  | some name => replaceName path (stem name ++ "." ++ extension)
  | none => path

end NativeExports.Path
