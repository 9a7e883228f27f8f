import ChainLab.Network

/-!
# Groups of nodes

The members of a group are all linked to each other.
-/

namespace ChainLab.Network

variable [Crypto]

/-- Link a node to each of the given members it is not linked to yet. -/
def connectMissing (net : Network) (name : NodeName) :
    List NodeName → Except NetworkError Unit × Network
  | [] => (.ok (), net)
  | member :: rest =>
    if net.isConnected name member then net.connectMissing name rest
    else
      match net.connect name member with
      | (.error error, net) => (.error error, net)
      | (.ok (), net) => net.connectMissing name rest

/-- Add a node to a group and link it to the members. -/
def joinGroup (net : Network) (group : String) (name : NodeName) :
    Except NetworkError Unit × Network :=
  match net.node name, net.groups[group]? with
  | .error error, _ => (.error error, net)
  | .ok _, none => (.error (.unknownGroup group), net)
  | .ok _, some members =>
    match net.connectMissing name (members.toList.filter fun member => member != name) with
    | (.error error, net) => (.error error, net)
    | (.ok (), net) =>
      (.ok (), { net with groups := net.groups.modify group fun members => members.insert name })

def joinAll (net : Network) (group : String) : List NodeName → Except NetworkError Unit × Network
  | [] => (.ok (), net)
  | name :: rest =>
    match net.joinGroup group name with
    | (.error error, net) => (.error error, net)
    | (.ok (), net) => net.joinAll group rest

/-- Create a group and link every pair of its members. -/
def createGroup (net : Network) (group : String) (members : List NodeName) :
    Except NetworkError Unit × Network :=
  if group ∈ net.groups then (.error (.duplicateGroup group), net)
  else
    match members.find? fun member => member ∉ net.nodes with
    | some missing => (.error (.unknownNode missing), net)
    | none => { net with groups := net.groups.insert group ∅ }.joinAll group members

omit [Crypto] in
/-- Remove the links from a node to the given members. -/
def disconnectAll (net : Network) (name : NodeName) :
    List NodeName → Except NetworkError Unit × Network
  | [] => (.ok (), net)
  | member :: rest =>
    if net.isConnected name member then
      match net.disconnect name member with
      | (.error error, net) => (.error error, net)
      | (.ok (), net) => net.disconnectAll name rest
    else net.disconnectAll name rest

omit [Crypto] in
/-- Take a node out of a group and unlink it from the remaining members. -/
def leaveGroup (net : Network) (group : String) (name : NodeName) :
    Except NetworkError Unit × Network :=
  match net.node name, net.groups[group]? with
  | .error error, _ => (.error error, net)
  | .ok _, none => (.error (.unknownGroup group), net)
  | .ok _, some members =>
    let members := members.erase name
    let net := { net with groups := net.groups.insert group members }
    net.disconnectAll name members.toList

end ChainLab.Network
