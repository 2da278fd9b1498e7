/-
A client's line to a server: one connection at a time, given up for good when it fails.
All connections stay in the account, each with what was handed over on it and with what
came in, of which a beginning has been read.
-/
import Mathlib.Data.List.Basic

namespace Keeplin

universe u v

/-- What was handed over on a connection, and what came in: read, or waiting to be. -/
structure Socket (H : Type u) (I : Type v) where
  handed : List H
  consumed : List I
  waiting : List I

namespace Socket

variable {H : Type u} {I : Type v}

def fresh (greeting : H) : Socket H I :=
  ⟨[greeting], [], []⟩

def hand (socket : Socket H I) (item : H) : Socket H I :=
  { socket with handed := socket.handed ++ [item] }

def arrive (socket : Socket H I) (item : I) : Socket H I :=
  { socket with waiting := socket.waiting ++ [item] }

/-- Read so many items further. -/
def take (socket : Socket H I) (n : Nat) : Socket H I where
  handed := socket.handed
  consumed := socket.consumed ++ socket.waiting.take n
  waiting := socket.waiting.drop n

end Socket

structure Line (H : Type u) (I : Type v) where
  past : List (Socket H I)
  current : Option (Socket H I)

namespace Line

variable {H : Type u} {I : Type v}

def idle : Line H I := ⟨[], none⟩

/-- All connections there have been, in their order. -/
def sockets (line : Line H I) : List (Socket H I) :=
  line.past ++ line.current.toList

def handed (line : Line H I) : List H :=
  line.sockets.flatMap Socket.handed

def consumed (line : Line H I) : List I :=
  line.sockets.flatMap Socket.consumed

/-- Give up the current connection. -/
def drop (line : Line H I) : Line H I :=
  ⟨line.sockets, none⟩

/-- Put something in the place of the current connection. -/
def become (line : Line H I) (socket : Socket H I) : Line H I :=
  { line with current := some socket }

variable {line : Line H I} {socket : Socket H I}

@[simp] theorem sockets_drop (line : Line H I) : line.drop.sockets = line.sockets :=
  List.append_nil _

@[simp] theorem handed_drop (line : Line H I) : line.drop.handed = line.handed := by
  rw [handed, sockets_drop, handed]

@[simp] theorem consumed_drop (line : Line H I) : line.drop.consumed = line.consumed := by
  rw [consumed, sockets_drop, consumed]

theorem sockets_become (line : Line H I) (socket : Socket H I) :
    (line.become socket).sockets = line.past ++ [socket] := rfl

theorem sockets_of_current (hcurrent : line.current = some socket) :
    line.sockets = line.past ++ [socket] := by
  rw [sockets, hcurrent, Option.toList_some]

theorem sockets_of_none (hnone : line.current = none) : line.sockets = line.past := by
  rw [sockets, hnone, Option.toList_none, List.append_nil]

theorem handed_become (line : Line H I) (socket : Socket H I) :
    (line.become socket).handed = line.past.flatMap Socket.handed ++ socket.handed := by
  rw [handed, sockets_become, List.flatMap_append, List.flatMap_singleton]

theorem consumed_become (line : Line H I) (socket : Socket H I) :
    (line.become socket).consumed = line.past.flatMap Socket.consumed ++ socket.consumed := by
  rw [consumed, sockets_become, List.flatMap_append, List.flatMap_singleton]

theorem become_current (hcurrent : line.current = some socket) : line.become socket = line := by
  obtain ⟨past, current⟩ := line
  obtain rfl : current = some socket := hcurrent
  rfl

/-- Handing something over adds it to all that was handed over. -/
theorem handed_hand (hcurrent : line.current = some socket) (item : H) :
    (line.become (socket.hand item)).handed = line.handed ++ [item] := by
  rw [handed_become, handed, sockets_of_current hcurrent, List.flatMap_append,
    List.flatMap_singleton, Socket.hand, List.append_assoc]

theorem handed_fresh (hnone : line.current = none) (greeting : H) :
    (line.become (.fresh greeting)).handed = line.handed ++ [greeting] := by
  rw [handed_become, handed, sockets_of_none hnone]
  rfl

/-- What does not hand over anything leaves all that was handed over. -/
theorem handed_same (hcurrent : line.current = some socket) {other : Socket H I}
    (hsame : other.handed = socket.handed) : (line.become other).handed = line.handed := by
  rw [handed_become, hsame, ← handed_become, become_current hcurrent]

theorem consumed_same (hcurrent : line.current = some socket) {other : Socket H I}
    (hsame : other.consumed = socket.consumed) : (line.become other).consumed = line.consumed := by
  rw [consumed_become, hsame, ← consumed_become, become_current hcurrent]

theorem consumed_fresh (hnone : line.current = none) (greeting : H) :
    (line.become (.fresh greeting)).consumed = line.consumed := by
  rw [consumed_become, consumed, sockets_of_none hnone]
  exact List.append_nil _

/-- Reading adds what was read to all that was read. -/
theorem consumed_take (hcurrent : line.current = some socket) (n : Nat) :
    (line.become (socket.take n)).consumed = line.consumed ++ socket.waiting.take n := by
  rw [consumed_become, consumed, sockets_of_current hcurrent, List.flatMap_append,
    List.flatMap_singleton, Socket.take, List.append_assoc]

end Line

end Keeplin
