import Storefront.Page.Basic
/-!
Changes to a page. What names a block by its id means the first one with that id; a change that names
no block of the page fails.
-/

namespace Storefront

/-- The id of a new block: nine hexadecimal digits of a number, best a random one. -/
def Block.newId (n : Nat) : String :=
  "sec_" ++ String.ofList ((List.range 9).map fun i => Nat.digitChar (n / Nat.pow 16 (8 - i) % 16))

namespace Page

def get? (p : Page) (id : String) : Option Block := p.blocks.find? (·.id == id)

def push (p : Page) (b : Block) : Page := ⟨p.blocks ++ [b]⟩

def changeFirst? (id : String) (f : Block → Block) : List Block → Option (List Block)
  | [] => none
  | b :: r => if b.id = id then some (f b :: r) else (changeFirst? id f r).map (b :: ·)

def remove? (p : Page) (id : String) : Option (Block × Page) :=
  (p.get? id).map fun b => (b, ⟨p.blocks.eraseP (·.id == id)⟩)

/-- Gives settings of a block new values; new keys come last. -/
def update? (p : Page) (id : String) (values : Entries Json) : Option Page :=
  (changeFirst? id (fun b => { b with settings := b.settings.putAll values }) p.blocks).map Page.mk

def setVariant? (p : Page) (id variant : String) : Option Page :=
  (changeFirst? id (fun b => { b with variant }) p.blocks).map Page.mk

def move? (p : Page) (i j : Nat) : Option Page :=
  match p.blocks[i]? with
  | some b => if j < p.blocks.length then some ⟨(p.blocks.eraseIdx i).insertIdx j b⟩ else none
  | none => none

end Page

end Storefront
