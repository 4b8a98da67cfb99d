/-
# Operations

What the users of a world can ask of it, as data. A query leaves the world as it
is; an operation may change it. A scope with a body is two operations, with the
operations of the body between them. What evaluation, calls and copies come to is
up to the host program, so they are no operations but made of them.
-/

import ObjectSystem.World.Construction

namespace ObjectSystem

/-- What users can ask about a world. -/
inductive Query : Type → Type where
  | object (x : Handle) : Query Object
  | ownership (x : Handle) : Query Ownership
  | classOf (x : Handle) : Query Handle
  | behaviorOf (x : Handle) : Query Behavior
  | descriptor (c : Handle) : Query Class
  | isAssignableClass (c target : Handle) : Query Bool
  | isAssignable (x target : Handle) : Query Bool
  | ancestors (c : Handle) : Query (List Handle)
  | resolveAttr (c : Handle) (s : Symbol) : Query AttrLocation
  | getAttr (x : Handle) (s : Symbol) : Query (Option Handle)
  | classAttr (c : Handle) (s : Symbol) : Query (Option Handle)
  | read (s : Slot) : Query (Option Handle)
  | symbolOf (x : Handle) : Query Symbol
  | nativeOf (x : Handle) : Query Native
  | items (list : Handle) : Query (List Handle)
  | frame (env : Handle) : Query Frame
  | lookup (env : Handle) (name : Symbol) : Query (Option Handle)
  | lookupLocal (env : Handle) (name : Symbol) : Query (Option Handle)
  | signatures (method : Handle) : Query (Array Signature)
  | matchMethod (method : Handle) (start : Nat) (args : List Handle) : Query (Option Handle)
  | findMethodInClass (s : Symbol) (c : Handle) (args : List Handle) : Query (Option Handle)

namespace Query

def answer : {α : Type} → Query α → World → Except Error α
  | _, object x, w => w.object x
  | _, ownership x, w => w.ownership x
  | _, classOf x, w => w.classOf x
  | _, behaviorOf x, w => w.behaviorOf x
  | _, descriptor c, w => w.descriptor c
  | _, isAssignableClass c target, w => w.isAssignableClass c target
  | _, isAssignable x target, w => w.isAssignable x target
  | _, ancestors c, w => w.ancestors c
  | _, resolveAttr c s, w => w.resolveAttr c s
  | _, getAttr x s, w => w.getAttr x s
  | _, classAttr c s, w => w.classAttr c s
  | _, read s, w => w.read s
  | _, symbolOf x, w => w.symbolOf x
  | _, nativeOf x, w => w.nativeOf x
  | _, items list, w => w.items list
  | _, frame env, w => w.frame env
  | _, lookup env name, w => w.lookup env name
  | _, lookupLocal env name, w => w.lookupLocal env name
  | _, signatures method, w => w.signatures method
  | _, matchMethod method start args, w => w.matchMethod method start args
  | _, findMethodInClass s c args, w => w.findMethodInClass s c args

end Query

/-- What users can ask of a world. -/
inductive Operation : Type → Type 1 where
  | ask {α : Type} (q : Query α) : Operation α
  /-- The object may carry a mark or a pin of its own. -/
  | allocate (o : Object) : Operation Handle
  | allocateOf (c : Handle) (payload : Payload) (length : Nat) : Operation Handle
  | realVector (length : Nat) : Operation Handle
  | integerVector (length : Nat) : Operation Handle
  | logicalVector (length : Nat) : Operation Handle
  | complexVector (length : Nat) : Operation Handle
  | objectVector (length : Nat) : Operation Handle
  | fillReals (x : Handle) (values : List Double) : Operation Unit
  | fillIntegers (x : Handle) (values : List Int32) : Operation Unit
  | fillLogicals (x : Handle) (values : List Int32) : Operation Unit
  | fillComplexes (x : Handle) (values : List Complex) : Operation Unit
  | scalarReal (value : Double) : Operation Handle
  | scalarInteger (value : Int32) : Operation Handle
  | scalarLogical (value : Bool) : Operation Handle
  | newText (text : String) : Operation Handle
  | newString (text : String) : Operation Handle
  | cell (c head next : Handle) : Operation Handle
  | newList (items : List Handle) : Operation Handle
  | newCall (parts : List Handle) : Operation Handle
  | intern (name : String) : Operation Symbol
  | install (name : String) : Operation Handle
  | newBuiltin (function : Native) : Operation Handle
  | newSpecial (function : Native) : Operation Handle
  | newGeneric (name : String) : Operation Handle
  | shallowCopy (x : Handle) : Operation Handle
  | set (s : Slot) (value : Option Handle) : Operation Unit
  | setAttr (x : Handle) (s : Symbol) (value : Option Handle) : Operation Unit
  | subclass (parent : Handle) (name : String) (newAttrs : List Symbol)
      (newClasses : Option (List Handle)) : Operation Handle
  | addSuperclass (c superclass : Handle) : Operation Unit
  | setBehavior (c : Handle) (behavior : Behavior) : Operation Unit
  | setTypeTag (c : Handle) (tag : UInt8) : Operation Unit
  | setAttrClass (c : Handle) (s : Symbol) (attrClass : Handle) : Operation Unit
  | defineClassAttr (c : Handle) (s : Symbol) (value : Option Handle) : Operation Unit
  | newMethod : Operation Handle
  | addSignature (method : Handle) (argClass : Option Handle) (value : Handle) : Operation Unit
  | defineMethod (c : Handle) (name : String) (argClasses : List Handle) (value : Handle) :
      Operation Handle
  | findMethod (name : String) (args : List Handle) : Operation (Option Handle)
  | requireMethod (name : String) (args : List Handle) : Operation Handle
  | newEnvironment (parent : Option Handle) : Operation Handle
  | assign (env : Handle) (name : Symbol) (value : Handle) : Operation Bool
  | openScope : Operation PoolId
  /-- The end of a scope whose body has come to a result. -/
  | closeScope (id : PoolId) (result : Except Error Handle) : Operation Handle
  | releasePool (id : PoolId) : Operation Nat
  | addToPool (x : Handle) (id : PoolId) : Operation Unit
  | removeFromPool (x : Handle) (id : PoolId) : Operation Unit
  | addRoot (x : Handle) : Operation Unit
  | removeRoot (x : Handle) : Operation Bool
  | collect (extra : List Handle) : Operation Nat
  | warn (message : String) : Operation Unit
  | clearWarnings : Operation Unit

namespace Operation

def action : {α : Type} → Operation α → Action α
  | _, ask q => .query q.answer
  | _, allocate o => Action.allocate o
  | _, allocateOf c payload length => Action.allocateOf c payload length
  | _, realVector length => Action.realVector length
  | _, integerVector length => Action.integerVector length
  | _, logicalVector length => Action.logicalVector length
  | _, complexVector length => Action.complexVector length
  | _, objectVector length => Action.objectVector length
  | _, fillReals x values => Action.fillReals x values
  | _, fillIntegers x values => Action.fillIntegers x values
  | _, fillLogicals x values => Action.fillLogicals x values
  | _, fillComplexes x values => Action.fillComplexes x values
  | _, scalarReal value => Action.scalarReal value
  | _, scalarInteger value => Action.scalarInteger value
  | _, scalarLogical value => Action.scalarLogical value
  | _, newText text => Action.newText text
  | _, newString text => Action.newString text
  | _, cell c head next => Action.cell c head next
  | _, newList items => Action.newList items
  | _, newCall parts => Action.newCall parts
  | _, intern name => Action.intern name
  | _, install name => Action.install name
  | _, newBuiltin function => Action.newBuiltin function
  | _, newSpecial function => Action.newSpecial function
  | _, newGeneric name => Action.newGeneric name
  | _, shallowCopy x => Action.shallowCopy x
  | _, set s value => Action.set s value
  | _, setAttr x s value => Action.setAttr x s value
  | _, subclass parent name newAttrs newClasses =>
      Action.subclass parent name newAttrs newClasses
  | _, addSuperclass c superclass => Action.addSuperclass c superclass
  | _, setBehavior c behavior => Action.setBehavior c behavior
  | _, setTypeTag c tag => Action.setTypeTag c tag
  | _, setAttrClass c s attrClass => Action.setAttrClass c s attrClass
  | _, defineClassAttr c s value => Action.defineClassAttr c s value
  | _, newMethod => Action.newMethod
  | _, addSignature method argClass value => Action.addSignature method argClass value
  | _, defineMethod c name argClasses value => Action.defineMethod c name argClasses value
  | _, findMethod name args => Action.findMethod name args
  | _, requireMethod name args => Action.requireMethod name args
  | _, newEnvironment parent => Action.newEnvironment parent
  | _, assign env name value => Action.assign env name value
  | _, openScope => Action.openScope
  | _, closeScope id result => Action.closeScope id result
  | _, releasePool id => Action.releasePool id
  | _, addToPool x id => Action.addToPool x id
  | _, removeFromPool x id => Action.removeFromPool x id
  | _, addRoot x => modify (·.addRoot x)
  | _, removeRoot x => modifyGet (·.removeRoot x)
  | _, collect extra => Action.collect extra
  | _, warn message => modify (·.warn message)
  | _, clearWarnings => modify World.clearWarnings

end Operation

end ObjectSystem
