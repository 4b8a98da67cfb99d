/-
# Descriptions

One line about an object: its class, its sizes and, if there is something short
to show, the beginning of its contents.
-/

import ObjectSystem.World

namespace ObjectSystem

/-- How many values a description shows. -/
def previewLength : Nat := 6

/-- The first values of a vector, and dots if there are more. -/
def previewOf (values : List String) : String :=
  let shown := values.take previewLength
  Text.bracketed (if previewLength < values.length then shown ++ ["..."] else shown)

namespace World

/-- The short contents of an object, if it has any. -/
def preview? (w : World) : Payload → Option String
  | .chars text => some (Text.quoted text)
  | .symbol s => some ("`" ++ w.symbols.display s ++ "`")
  | .real values => some (previewOf (values.toList.map Double.text))
  | .integer values | .logical values =>
      some (previewOf (values.toList.map fun v => toString v.toInt))
  | .descriptor d => some ("<" ++ d.name ++ ">")
  | _ => none

/-- One line about an object, if asking for the name of its class comes to an end. -/
def describe (w : World) (x : Handle) : Option String :=
  if isNull x then some "NULL object"
  else
    match w.objects.get? x with
    | none => some s!"{x.label} <dangling>"
    | some o => do
        let line := s!"{x.label} class={← w.className x}, attrs={o.attrs.size}, " ++
          s!"size={o.payload.byteSize}, len={o.length}"
        match w.preview? o.payload with
        | some preview => return s!"{line} : {preview}"
        | none => return line

end World

end ObjectSystem
