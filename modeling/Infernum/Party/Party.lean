import Mathlib.Logic.Function.Basic

/-!
# Parties and their channels

`Party` objects and players point at each other: a party has its leader, members and
invited players, a player his party and the parties that invited him. The chat keeps a
channel for a party under its address. Players and parties are their addresses; an
address is free again after `delete`. What is sent to the clients is left out.
-/

namespace Infernum.Parties

structure Party where
  leader : Nat
  memberList : List Nat
  inviteList : List Nat
  deriving DecidableEq, Repr

namespace Party

def empty (P : Party) : Bool := P.memberList.isEmpty && P.inviteList.isEmpty

def isPlayerInvited (P : Party) (player : Nat) : Bool := player ∈ P.inviteList

end Party

structure Player where
  party : Option Nat
  invitePartyList : List Nat
  deriving DecidableEq, Repr

/-- The answers of the party callbacks to one operation. -/
structure Events where
  eventPartyOnJoin : Nat → Nat → Bool
  eventPartyOnLeave : Nat → Nat → Bool
  eventPartyOnDisband : Nat → Bool

@[ext] structure World where
  player : Nat → Player
  /-- The party objects that exist. -/
  party : Nat → Option Party
  /-- `Chat::partyChannels`, the users of each channel. -/
  partyChannels : Nat → Option (List Nat)
  /-- The players that `getPlayerByID` finds. -/
  online : Nat → Bool

namespace World

/-- Nobody is online, and there is no party. -/
def initial : World := ⟨fun _ => ⟨none, []⟩, fun _ => none, fun _ => none, fun _ => false⟩

def setParty (w : World) (q : Nat) (party : Option Nat) : World :=
  { w with player := Function.update w.player q { w.player q with party := party } }

/-- The object at an address is written to. -/
def write (w : World) (p : Nat) (P : Party) : World :=
  { w with party := Function.update w.party p (some P) }

def delete (w : World) (p : Nat) : World := { w with party := Function.update w.party p none }

/-! ## `Player` -/

def addPartyInvitation (w : World) (q p : Nat) : World :=
  if p ∈ (w.player q).invitePartyList then w
  else
    let player : Player := { w.player q with invitePartyList := p :: (w.player q).invitePartyList }
    { w with player := Function.update w.player q player }

def removePartyInvitation (w : World) (q p : Nat) : World :=
  let invitePartyList := (w.player q).invitePartyList.filter (· ≠ p)
  let player : Player := { w.player q with invitePartyList := invitePartyList }
  { w with player := Function.update w.player q player }

def isInviting (w : World) (q player : Nat) : Bool :=
  match (w.player q).party.bind w.party with
  | none => false
  | some P => P.leader = q && P.isPlayerInvited player

def isPartner (w : World) (q player : Nat) : Bool :=
  (w.player q).party.isSome && player ≠ q && (w.player q).party = (w.player player).party

/-! ## `Chat`, for party channels -/

/-- `getChannel`: the address that the party channel of a player is kept under. -/
def getChannel (w : World) (q : Nat) : Option Nat :=
  (w.player q).party.filter fun p => (w.partyChannels p).isSome

/-- `getChannelList` makes the channel of the player's party if there is none. -/
def getChannelList (w : World) (q : Nat) : World :=
  match (w.player q).party, w.getChannel q with
  | some p, none => { w with partyChannels := Function.update w.partyChannels p (some []) }
  | _, _ => w

def addUserToChannel (w : World) (q : Nat) : World :=
  match w.getChannel q with
  | none => w
  | some p =>
      let users := (w.partyChannels p).getD []
      if q ∈ users then w
      else { w with partyChannels := Function.update w.partyChannels p (some (q :: users)) }

/-- `removeUserFromChannel`; a party channel has no owner, so it is not deleted. -/
def removeUserFromChannel (w : World) (q : Nat) : World :=
  match w.getChannel q with
  | none => w
  | some p =>
      let users := (w.partyChannels p).getD []
      { w with partyChannels := Function.update w.partyChannels p (some (users.filter (· ≠ q))) }

def removeUserFromAllChannels (w : World) (q : Nat) : World :=
  { w with partyChannels := fun p => (w.partyChannels p).map fun users => users.filter (· ≠ q) }

/-- `sendClosePrivate` of the party channel. -/
def sendClosePrivate (w : World) (q : Nat) : World := w.removeUserFromChannel q

/-! ## `Party` -/

/-- `disband`. -/
def disband (w : World) (ev : Events) (p : Nat) : World :=
  match w.party p with
  | none => w
  | some P =>
      if !ev.eventPartyOnDisband p then w
      else
        let w := (w.setParty P.leader none).sendClosePrivate P.leader
        let w := P.inviteList.foldl (fun w invitee => w.removePartyInvitation invitee p) w
        let w := P.memberList.foldl (fun w q => (w.setParty q none).sendClosePrivate q) w
        w.delete p

/-- `passPartyLeadership`. -/
def passPartyLeadership (w : World) (p player : Nat) : World :=
  match w.party p with
  | none => w
  | some P =>
      if P.leader = player ∨ (w.player player).party ≠ some p then w
      else
        let memberList := P.memberList.erase player
        w.write p { P with leader := player, memberList := P.leader :: memberList }

/-- `leaveParty`, from the choice of a new leader on. -/
def leaveParty (w : World) (ev : Events) (p player : Nat) : World :=
  match w.party p with
  | none => w
  | some P =>
      if (w.player player).party ≠ some p ∧ P.leader ≠ player then w
      else if !ev.eventPartyOnLeave p player then w
      else
        let (missingLeader, w) :=
          if P.leader = player then
            match P.memberList with
            | [] => (true, w)
            | front :: _ =>
                if P.memberList.length = 1 ∧ P.inviteList = [] then (true, w)
                else (false, w.passPartyLeadership p front)
          else (false, w)
        match w.party p with
        | none => w
        | some P =>
            let P := { P with memberList := P.memberList.erase player }
            let w := ((w.write p P).setParty player none).sendClosePrivate player
            if missingLeader || P.empty then w.disband ev p else w

/-- `joinParty`. -/
def joinParty (w : World) (ev : Events) (p player : Nat) : World :=
  match w.party p with
  | none => w
  | some P =>
      if !ev.eventPartyOnJoin p player then w
      else if player ∉ P.inviteList then w
      else
        let P := { P with inviteList := P.inviteList.erase player }
        let w := (w.write p P).setParty player (some p)
        let w := w.write p { P with memberList := P.memberList ++ [player] }
        w.removePartyInvitation player p

/-- `removeInvite`. -/
def removeInvite (w : World) (ev : Events) (p player : Nat) (removeFromPlayer : Bool) : World :=
  match w.party p with
  | none => w
  | some P =>
      if player ∉ P.inviteList then w
      else
        let P := { P with inviteList := P.inviteList.erase player }
        let w := w.write p P
        let w := if removeFromPlayer then w.removePartyInvitation player p else w
        if P.empty then w.disband ev p else w

def revokeInvitation (w : World) (ev : Events) (p player : Nat) : World :=
  w.removeInvite ev p player true

/-- `invitePlayer`. -/
def invitePlayer (w : World) (p player : Nat) : World :=
  match w.party p with
  | none => w
  | some P =>
      if P.isPlayerInvited player then w
      else
        let w := w.write p { P with inviteList := P.inviteList ++ [player] }
        w.addPartyInvitation player p

/-- `Player::clearPartyInvitations`. -/
def clearPartyInvitations (w : World) (ev : Events) (q : Nat) : World :=
  let w := (w.player q).invitePartyList.foldl (fun w p => w.removeInvite ev p q false) w
  { w with player := Function.update w.player q { w.player q with invitePartyList := [] } }

/-- `new Party(leader)` at a free address. -/
def newParty (w : World) (p leader : Nat) : World :=
  (w.write p ⟨leader, [], []⟩).setParty leader (some p)

/-! ## What players and scripts do -/

/-- `Game::playerInviteToParty`; `p` is where a new party comes to lie. -/
def playerInviteToParty (w : World) (p player invited : Nat) : World :=
  if player = invited then w
  else if !w.online player then w
  else if !w.online invited || w.isInviting invited player then w
  else if (w.player invited).party.isSome then w
  else
    match (w.player player).party with
    | none => (w.newParty p player).invitePlayer p invited
    | some own =>
        match w.party own with
        | none => w
        | some P => if P.leader ≠ player then w else w.invitePlayer own invited

/-- `Game::playerJoinParty`. -/
def playerJoinParty (w : World) (ev : Events) (player leader : Nat) : World :=
  if !w.online player then w
  else if !w.online leader || !w.isInviting leader player then w
  else
    match (w.player leader).party with
    | none => w
    | some p =>
        match w.party p with
        | none => w
        | some P =>
            if P.leader ≠ leader then w
            else if (w.player player).party.isSome then w
            else w.joinParty ev p player

/-- `Game::playerRevokePartyInvitation`. -/
def playerRevokePartyInvitation (w : World) (ev : Events) (player invited : Nat) : World :=
  if !w.online player then w
  else
    match (w.player player).party with
    | none => w
    | some p =>
        match w.party p with
        | none => w
        | some P =>
            if P.leader ≠ player then w
            else if !w.online invited || !w.isInviting player invited then w
            else w.revokeInvitation ev p invited

/-- `Game::playerPassPartyLeadership`. -/
def playerPassPartyLeadership (w : World) (player newLeader : Nat) : World :=
  if !w.online player then w
  else
    match (w.player player).party with
    | none => w
    | some p =>
        match w.party p with
        | none => w
        | some P =>
            if P.leader ≠ player then w
            else if !w.online newLeader || !w.isPartner player newLeader then w
            else w.passPartyLeadership p newLeader

/-- `Game::playerLeaveParty`. -/
def playerLeaveParty (w : World) (ev : Events) (player : Nat) (inFight : Bool) : World :=
  if !w.online player then w
  else
    match (w.player player).party with
    | none => w
    | some p => if inFight then w else w.leaveParty ev p player

/-- `Party(player)` of a script. -/
def luaPartyCreate (w : World) (p player : Nat) : World :=
  if (w.player player).party.isSome then w else w.newParty p player

/-- The part of `Player::onRemoveCreature` that has to do with parties. -/
def onRemoveCreature (w : World) (ev : Events) (q : Nat) : World :=
  let w := w.clearPartyInvitations ev q
  let w := match (w.player q).party with
    | none => w
    | some p => w.leaveParty ev p q
  let w := w.removeUserFromAllChannels q
  { w with online := Function.update w.online q false }

/-- The object of a player who has gone is deleted. A new one at this address is in no
party. -/
def releasePlayer (w : World) (q : Nat) : World :=
  { w with player := Function.update w.player q ⟨none, []⟩ }

inductive Step where
  | login (player : Nat)
  | create (p player : Nat)
  | invite (p player invited : Nat)
  | revoke (player invited : Nat)
  | join (player leader : Nat)
  | leave (player : Nat) (inFight : Bool)
  | passLeadership (player newLeader : Nat)
  | disband (p : Nat)
  | logout (player : Nat)
  | requestChannels (player : Nat)
  | openChannel (player : Nat)
  | closeChannel (player : Nat)

/-- One operation, with the answers that the callbacks give to it. -/
def step (w : World) (ev : Events) : Step → World
  | .login player => { w with online := Function.update w.online player true }
  | .create p player => if w.online player && (w.party p).isNone then w.luaPartyCreate p player else w
  | .invite p player invited =>
      if (w.party p).isNone then w.playerInviteToParty p player invited else w
  | .revoke player invited => w.playerRevokePartyInvitation ev player invited
  | .join player leader => w.playerJoinParty ev player leader
  | .leave player inFight => w.playerLeaveParty ev player inFight
  | .passLeadership player newLeader => w.playerPassPartyLeadership player newLeader
  | .disband p => w.disband ev p
  | .logout player =>
      if w.online player then (w.onRemoveCreature ev player).releasePlayer player else w
  | .requestChannels player => if w.online player then w.getChannelList player else w
  | .openChannel player => if w.online player then w.addUserToChannel player else w
  | .closeChannel player => if w.online player then w.removeUserFromChannel player else w

/-- The world after operations in this order, each with the answers of the callbacks. -/
def after (steps : List (Events × Step)) : World :=
  steps.foldl (fun w a => w.step a.1 a.2) initial

end World

end Infernum.Parties
