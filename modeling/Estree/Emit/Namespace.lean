import Estree.Emit.Scope
import Estree.Text.Escape

/-!
# Namespaces and ambient modules

A module declaration whose body is again a module declaration is one declaration with a dotted name.
-/

namespace Estree

namespace Emit


/-- One part of a module name: an ambient module has a quoted name. -/
def moduleNamePart (s : Scope) (id : Node) : Doc :=
  match id with
  | .literal l =>
    match l.value with
    | .string name => "\"" ++ Text.escape name ++ "\""
    | _ => s.emit id
  | id => s.emit id

/-- The rest of a module declaration: the parts of a dotted name that are nested declarations, and
the body of the innermost one. -/
def moduleRest (s : Scope) : Option Node → Doc
  | some (.tsModuleDeclaration ⟨id, body, _, _, _⟩) =>
    "." ++ moduleNamePart s id ++ moduleRest s body
  | some body => " " ++ s.emit body
  | none => ";"

/-- The body of a module declaration that is written as it stands. -/
def moduleBody (s : Scope) : Option Node → Doc
  | some body => " " ++ s.emit body
  | none => ";"

/-- The keyword of a module declaration. -/
def moduleKeyword (m : ModuleDeclaration) : String :=
  match m.id with
  | .literal _ => "module "
  | _ => if m.kind = some "module" then "module " else "namespace "

/-- A namespace, an ambient module or the global scope. -/
def moduleDeclaration (s : Scope) : Node → Doc
  | .tsModuleDeclaration m =>
    .onlyIf m.declare "declare " ++
      if m.isGlobal then "global" ++ moduleBody s m.body
      else moduleKeyword m ++ moduleNamePart s m.id ++ moduleRest s m.body
  | n => .expected n [.tsModuleDeclaration]

/-- The body of a namespace. -/
def moduleBlock (s : Scope) : Node → Doc
  | .block .module body => s.block body
  | n => .expected n [.tsModuleBlock]

end Emit

end Estree
