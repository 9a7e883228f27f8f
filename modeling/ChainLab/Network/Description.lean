import ChainLab.Network

/-!
# The one-line description of a network
-/

namespace ChainLab.Network

def listed (items : List String) : String := "[" ++ ", ".intercalate items ++ "]"

def braced (items : List String) : String := "\x7b" ++ ", ".intercalate items ++ "\x7d"

def shownNode (name : NodeName) : String := "NodeId(" ++ Text.quoted name ++ ")"

def shownEdge (e : Edge) : String := "(" ++ shownNode e.lo ++ ", " ++ shownNode e.hi ++ ")"

def shownSeed (net : Network) : String := Text.hexNumber net.seed.toNat

/-- Seed, nodes, links and groups in name order. -/
def describe (net : Network) : String :=
  let groups := net.groups.toList.map fun (name, members) =>
    Text.quoted name ++ ": " ++ braced (members.toList.map shownNode)
  "NetworkSimulator \x7b seed: " ++ net.shownSeed ++
    ", nodes: " ++ listed (net.nodes.keys.map shownNode) ++
    ", links: " ++ listed (net.links.keys.map shownEdge) ++
    ", groups: " ++ braced groups ++ " \x7d"

end ChainLab.Network
