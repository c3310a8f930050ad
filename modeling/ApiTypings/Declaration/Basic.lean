/-
# Declarations

The tree of declarations: each node has a header, a body with the members of its kind, and the
declarations nested in it.  A declaration is built from one symbol, after its children.

* `build_eq_ok` : a built declaration has the header of its symbol and the children it was given.
-/
import ApiTypings.Method

namespace ApiTypings

/-! ## Parts of a declaration -/

/-- Name, place and documentation of a declaration. -/
structure Header where
  /-- The last segment of the full name. -/
  name : String
  fullName : String
  /-- How many declarations it is nested in. -/
  depth : Nat
  description : String
  deprecated : Option Deprecation
  deriving Inhabited

/-- The header of a symbol at a depth. -/
def Header.ofSymbol (s : Symbol) (depth : Nat) : Header where
  name := s.basename
  fullName := s.name
  depth := depth
  description := s.description.getD ""
  deprecated := s.deprecated

/-- A member of an enum; its value is its name. -/
structure EnumMember where
  name : String
  description : String
  deprecated : Option Deprecation
  deriving Inhabited

/-- The enum member that a documented property stands for. -/
def EnumMember.ofDoc (doc : PropertyDoc) : EnumMember where
  name := doc.name
  description := doc.description.getD ""
  deprecated := doc.deprecated

/-- The class part of a declaration. -/
structure ClassBody where
  /-- The full name of the base class. -/
  base : Option String
  properties : List Property
  /-- The methods, the constructor among them. -/
  methods : List Method
  deriving Inhabited

/-- The members of a declaration, by its kind. -/
inductive Body where
  /-- A namespace, and the type it is written as if it is not written as a block. -/
  | ofNamespace (properties : List Property) (methods : List Method) (asType : Option String)
  | ofClass (body : ClassBody)
  | ofInterface (properties : List Property) (methods : List Method)
  | ofEnum (members : List EnumMember)
  | ofTypedef (properties : List Property)
  deriving Inhabited

namespace Body

/-- The kind of declaration that has such a body. -/
def kind : Body → SymbolKind
  | ofNamespace .. => .namespaceKind
  | ofClass _ => .classKind
  | ofInterface .. => .interfaceKind
  | ofEnum _ => .enumKind
  | ofTypedef _ => .typedefKind

/-- The properties in a body; the members of an enum are none. -/
def properties : Body → List Property
  | ofNamespace ps _ _ => ps
  | ofClass c => c.properties
  | ofInterface ps _ => ps
  | ofEnum _ => []
  | ofTypedef ps => ps

/-- The methods in a body. -/
def methods : Body → List Method
  | ofNamespace _ ms _ => ms
  | ofClass c => c.methods
  | ofInterface _ ms => ms
  | ofEnum _ => []
  | ofTypedef _ => []

/-- The members of an enum. -/
def enumMembers : Body → List EnumMember
  | ofEnum ms => ms
  | _ => []

/-- The class part of a class. -/
def class? : Body → Option ClassBody
  | ofClass c => some c
  | _ => none

end Body

/-- A declaration with the declarations nested in it. -/
inductive Declaration where
  | node (header : Header) (body : Body) (children : List Declaration)
  deriving Inhabited

namespace Declaration

/-- Name, place and documentation. -/
def header : Declaration → Header
  | node h _ _ => h

/-- The members. -/
def body : Declaration → Body
  | node _ b _ => b

/-- The nested declarations. -/
def children : Declaration → List Declaration
  | node _ _ cs => cs

/-- The last segment of the full name. -/
def name (d : Declaration) : String := d.header.name

/-- The full dotted name. -/
def fullName (d : Declaration) : String := d.header.fullName

/-- What is declared. -/
def kind (d : Declaration) : SymbolKind := d.body.kind

/-! ## Repairing static methods -/

/-- Whether a static method of a repaired class stays as it is. -/
def keepsStatic (settings : Settings) (className method : String) : Bool :=
  settings.ignored.staticMethodFixingAllowed.has method
    || settings.ignored.staticMethodFixingAllowed.has (Dotted.member className method)
    || settings.ignored.staticMethodFixingAllowed.has (className ++ ".*")

/-- What becomes of a documented method of a repaired class. -/
inductive StaticRepair where
  /-- It stays as it is. -/
  | keep
  /-- It is dropped, because an instance method has its name. -/
  | drop
  /-- It becomes an instance method. -/
  | makeInstance
  deriving DecidableEq

/-- What becomes of one of the documented methods of a class.  Only listed classes are repaired,
and of those only static methods that are not allowed to stay. -/
def staticRepair (settings : Settings) (className : String) (docs : List MethodDoc)
    (doc : MethodDoc) : StaticRepair :=
  if !settings.ignored.staticMethodFixing.has className || !doc.isStatic
      || keepsStatic settings className doc.name then
    .keep
  else if docs.any (fun m => !m.isStatic && m.name == doc.name) then .drop
  else .makeInstance

/-- The documented methods of a class after the repair of its static methods. -/
def repairStatic (settings : Settings) (className : String) (docs : List MethodDoc) :
    List MethodDoc :=
  docs.filterMap fun doc =>
    match staticRepair settings className docs doc with
    | .keep => some doc
    | .drop => none
    | .makeInstance => some { doc with isStatic := false }

/-! ## Building declarations -/

/-- The base class of a symbol, to the settings or as documented; an empty name is none. -/
def baseOf (settings : Settings) (s : Symbol) : Option String :=
  ((settings.replacements.specific.baseClass.lookup s.name s.basename).or
      (s.baseClass.map (settings.replacements.replaceTypes · s.name))).filter (!·.isEmpty)

/-- The documented methods of a class, its constructor last. -/
def classMethodDocs (settings : Settings) (s : Symbol) : List MethodDoc :=
  repairStatic settings s.name s.methods ++ s.constructorDoc.toList.map (·.toMethod)

/-- The documented properties of a namespace, those that the settings add behind them. -/
def namespacePropertyDocs (settings : Settings) (s : Symbol) : List PropertyDoc :=
  s.properties ++ (settings.additionalProperties.get? s.name).getD []

/-- The body of a namespace. -/
def namespaceBody (settings : Settings) (s : Symbol) : Except GenerationError Body := do
  let methods ← Method.buildAll settings s.methods s.name .namespaceKind
  return .ofNamespace
    (Property.buildAll settings (namespacePropertyDocs settings s) s.name .namespaceKind) methods
    (settings.replacements.specific.namespaceAsType.lookup s.name s.basename)

/-- The body of a class, its members sorted. -/
def classBody (settings : Settings) (s : Symbol) : Except GenerationError Body := do
  let methods ← Method.buildAll settings (classMethodDocs settings s) s.name .classKind
  return .ofClass
    { base := baseOf settings s
      properties :=
        sortMembers Property.key (Property.buildAll settings s.properties s.name .classKind)
      methods := sortMembers Method.key methods }

/-- The body of an interface. -/
def interfaceBody (settings : Settings) (s : Symbol) : Except GenerationError Body := do
  let methods ← Method.buildAll settings s.methods s.name .interfaceKind
  return .ofInterface (Property.buildAll settings s.properties s.name .interfaceKind) methods

/-- The body of an enum, which owns neither methods nor declarations. -/
def enumBody (s : Symbol) (children : List Declaration) : Except GenerationError Body :=
  match s.methods, children with
  | m :: _, _ => .error (.cannotOwn .enumKind s.name .method m.name)
  | [], c :: _ => .error (.cannotOwn .enumKind s.name .nestedDeclaration c.fullName)
  | [], [] => .ok (.ofEnum (s.properties.map .ofDoc))

/-- The body of a typedef, which owns no methods. -/
def typedefBody (settings : Settings) (s : Symbol) : Except GenerationError Body :=
  match s.methods with
  | m :: _ => .error (.cannotOwn .typedefKind s.name .method m.name)
  | [] => .ok (.ofTypedef (Property.buildAll settings s.properties s.name .typedefKind))

/-- The body of a symbol whose declaration gets these children. -/
def bodyOf (settings : Settings) (s : Symbol) (children : List Declaration) :
    Except GenerationError Body :=
  match s.kind with
  | .namespaceKind => namespaceBody settings s
  | .classKind => classBody settings s
  | .interfaceKind => interfaceBody settings s
  | .enumKind => enumBody s children
  | .typedefKind => typedefBody settings s

/-- The declaration of a symbol at a depth, with its children. -/
def build (settings : Settings) (s : Symbol) (depth : Nat) (children : List Declaration) :
    Except GenerationError Declaration := do
  let body ← bodyOf settings s children
  return .node (.ofSymbol s depth) body children

/-- A built declaration has the header of its symbol and the children it was given. -/
theorem build_eq_ok {settings : Settings} {s : Symbol} {depth : Nat} {children : List Declaration}
    {d : Declaration} (h : build settings s depth children = .ok d) :
    ∃ body, bodyOf settings s children = .ok body
      ∧ d = .node (.ofSymbol s depth) body children := by
  unfold build at h
  cases hb : bodyOf settings s children with
  | error e => simp [hb, bind, Except.bind] at h
  | ok body =>
    simp [hb, bind, Except.bind, pure, Except.pure] at h
    exact ⟨body, rfl, h.symm⟩

end Declaration

end ApiTypings
