/-
# Built-in objects

The objects that every world has from the start. They fill the first cells of
its arena in a fixed order, so their handles are known in advance: first the
classes, then the null object, the symbol for a missing argument, the missing
string and the global environment.
-/

import ObjectSystem.Handle

namespace ObjectSystem.Builtin

/-- The handle of the object that is created at a place in the order. -/
def nth (place : Nat) : Handle := ⟨UInt32.ofNat place, 0⟩

/-- The class of classes. -/
def classClass : Handle := nth 0

/-- The class above all others. -/
def objectClass : Handle := nth 1

def nullClass : Handle := nth 2

def symbolClass : Handle := nth 3

/-- The class of single texts. -/
def charsClass : Handle := nth 4

def vectorClass : Handle := nth 5

/-- The class of vectors of texts. -/
def characterClass : Handle := nth 6

def numericClass : Handle := nth 7

def realClass : Handle := nth 8

def integerClass : Handle := nth 9

/-- The class of vectors of objects. -/
def listClass : Handle := nth 10

def logicalClass : Handle := nth 11

def complexClass : Handle := nth 12

/-- The class of linked lists. -/
def pairlistClass : Handle := nth 13

/-- The class of calls. -/
def languageClass : Handle := nth 14

def environmentClass : Handle := nth 15

def builtinClass : Handle := nth 16

def specialClass : Handle := nth 17

def genericClass : Handle := nth 18

def methodClass : Handle := nth 19

/-- All built-in classes, in the order of their creation. -/
def classes : List Handle := (List.range 20).map nth

/-- The object that stands for no value and ends linked lists. -/
def null : Handle := nth 20

/-- The symbol that stands for an argument that was not given. -/
def missingArg : Handle := nth 21

/-- The text that stands for a missing text. -/
def missingString : Handle := nth 22

def globalEnv : Handle := nth 23

/-- The objects beside the classes that every collection starts from. -/
def roots : List Handle := [null, missingArg, missingString, globalEnv]

end ObjectSystem.Builtin
