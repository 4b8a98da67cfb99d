/-
# Symbols

Names are interned: a table gives each name the number of its first use, and
symbols are compared by number. Numbers are 32-bit words; a table that has not
run out of them is a one-to-one correspondence between its names and the
numbers below its size.

Method names live in the same table. They are kept apart from all other names
by a control character in front, which is not shown to users.
-/

namespace ObjectSystem

/-- An interned name. -/
structure Symbol where
  index : UInt32
  deriving DecidableEq, Inhabited

namespace Symbol

/-- The symbol with a number; only the low 32 bits count. -/
def ofIndex (n : Nat) : Symbol := ⟨UInt32.ofNat n⟩

/-- The empty name. -/
def empty : Symbol := ⟨0⟩

/-- The name under which every object shows its class. -/
def ofClass : Symbol := ⟨1⟩

def names : Symbol := ⟨2⟩

def next : Symbol := ⟨3⟩

def head : Symbol := ⟨4⟩

def tag : Symbol := ⟨5⟩

def parent : Symbol := ⟨6⟩

/-- The assignment arrow. -/
def arrow : Symbol := ⟨7⟩

/-- The empty name and the class name cannot name an attribute. -/
def isReserved (s : Symbol) : Bool :=
  s.index ≤ 1

/-- A symbol in messages is shown by number. -/
def text (s : Symbol) : String :=
  s!"Sym({s.index.toNat})"

end Symbol

/-- The character in front of the name of a method. -/
def methodMark : Char := '\x01'

/-- The name under which the overloads of a method are kept. -/
def methodName (name : String) : String :=
  String.ofList (methodMark :: name.toList)

/-- All names in the order of first use, and the symbol of each. -/
structure SymbolTable where
  names : Array String
  /-- The symbols by name. -/
  mappings : List (String × Symbol)
  /-- A name is mapped to the number of its first use. -/
  mappings_lookup : ∀ name,
    mappings.lookup name = (names.findIdx? (· == name)).map Symbol.ofIndex

namespace SymbolTable

/-- A table without names. -/
def empty : SymbolTable where
  names := #[]
  mappings := []
  mappings_lookup _ := by simp

def size (t : SymbolTable) : Nat :=
  t.names.size

def isEmpty (t : SymbolTable) : Bool :=
  t.names.isEmpty

/-- The symbol of a name that is already in the table. -/
def find? (t : SymbolTable) (name : String) : Option Symbol :=
  t.mappings.lookup name

/-- The two tables agree: a name has the number of its first place. -/
theorem find?_eq (t : SymbolTable) (name : String) :
    t.find? name = (t.names.findIdx? (· == name)).map Symbol.ofIndex :=
  t.mappings_lookup name

/-- Give a name that is not in the table the next number. -/
def add (t : SymbolTable) (name : String) (hnew : t.find? name = none) : SymbolTable where
  names := t.names.push name
  mappings := (name, Symbol.ofIndex t.names.size) :: t.mappings
  mappings_lookup other := by
    have hold := t.mappings_lookup other
    rw [Array.findIdx?_push, List.lookup_cons, hold]
    by_cases hother : other = name
    · subst hother
      have hnone : t.names.findIdx? (· == other) = none :=
        Option.map_eq_none_iff.1 (hold.symm.trans hnew)
      simp [hnone]
    · have hne : ¬ name = other := fun heq => hother heq.symm
      simp [beq_eq_false_iff_ne.2 hother, hne]

/-- The symbol of a name, which enters the table if it is new. -/
def intern (t : SymbolTable) (name : String) : Symbol × SymbolTable :=
  match hfind : t.find? name with
  | some s => (s, t)
  | none => (Symbol.ofIndex t.names.size, t.add name hfind)

/-- A table opens with the two reserved names. -/
def new : SymbolTable :=
  ((empty.intern "").2.intern "class").2

/-- The table of a new world also knows the names of the built-in attributes
and the assignment arrow. -/
def standard : SymbolTable :=
  ["names", "next", "head", "tag", "parent", "<-"].foldl (fun t name => (t.intern name).2) new

instance : Inhabited SymbolTable := ⟨new⟩

def name? (t : SymbolTable) (s : Symbol) : Option String :=
  t.names[s.index.toNat]?

/-- The name of a symbol as users see it: without the marks of method names,
and by number if the table does not know the symbol. -/
def display (t : SymbolTable) (s : Symbol) : String :=
  match t.name? s with
  | some name => String.ofList (name.toList.dropWhile (· == methodMark))
  | none => s!"#{s.index.toNat}"

end SymbolTable

end ObjectSystem
