/-! The tree of a configuration, as its iterators go through it. -/

namespace Uniset

/-- The name of a node is empty if the library gives none. -/
inductive XmlNode
  | node (name : String) (xinclude : Bool) (props : List (String × String)) (children : List XmlNode)

namespace XmlNode

def name : XmlNode → String
  | node name _ _ _ => name

def props : XmlNode → List (String × String)
  | node _ _ props _ => props

def children : XmlNode → List XmlNode
  | node _ _ _ children => children

def getProp (n : XmlNode) (name : String) : String := (n.props.lookup name).getD ""

/-- Texts, comments and the marks of an inclusion are passed over. -/
def hidden : XmlNode → Bool
  | node name xinclude _ _ => name = "text" || name = "comment" || xinclude

/-- The nodes that a loop goes through that begins with `goChildren`, or none if it does not go there.
It does if the first child is passed over, even with nothing behind it. -/
def goChildren (n : XmlNode) : Option (List XmlNode) :=
  match n.children with
  | [] => none
  | c :: children =>
    if !c.hidden && c.name = "" then none else some ((c :: children).filter fun c => !c.hidden)

end XmlNode

end Uniset
