import Mathlib.Data.Finset.Basic
import SystemyOperacyjne.Library.CheckedArray

/-!
# The client registry of the compute server

`clientFds`, `clientsPong` and `clientFdsSize` of `cw10/zad1/server.c`, with the functions
that keep them, beside the connection descriptors the process has open. Only `serverTask`
writes `clientFds` and `clientFdsSize`, and every function here runs under `lock`, so each
is one step.

The two ways in which these functions do not return are kept apart: `exitError`, which
prints its text and leaves the process, and an access outside an array, which C leaves
undefined.
-/

set_option autoImplicit false

namespace SystemyOperacyjne.ComputeServer

open Library

/-- A file descriptor; `-1` is none. -/
abbrev Fd := ℤ

/-- SOURCE: cw10/zad1/deff.h:2 -/
abbrev MAXCLIENTS : ℕ := 16

/-- How a function can fail to return. -/
inductive Failure
  | exitError (err : String)
  | outOfBounds
  deriving DecidableEq, Repr

/-- The registry, and what it is about: `openFds` are the connections the process has not
closed. `clientFdsSize` is the last index in use, not a count.
SOURCE: cw10/zad1/server.c:33-35 -/
structure Registry where
  clientFds : Vector Fd MAXCLIENTS
  clientsPong : Vector ℤ MAXCLIENTS
  clientFdsSize : ℤ
  openFds : Finset Fd
  deriving DecidableEq

/-- The registry before the first connection.
SOURCE: cw10/zad1/server.c:33-35, cw10/zad1/server.c:285-287 -/
def Registry.empty : Registry where
  clientFds := .replicate _ (-1)
  clientsPong := .replicate _ 0
  clientFdsSize := -1
  openFds := ∅

/-- The descriptors the server takes for its clients: `clientFds[0..clientFdsSize]`. -/
def Registry.registered (r : Registry) : List Fd :=
  r.clientFds.toList.take (r.clientFdsSize + 1).toNat

/-- SOURCE: cw10/zad1/server.c:309-316 -/
def addClient (fd : Fd) (r : Registry) : Except Failure Registry :=
  if r.clientFdsSize ≥ MAXCLIENTS then
    .error (.exitError "Upper clients limit")
  else do
    let clientFds ← store .outOfBounds r.clientFds (r.clientFdsSize + 1) fd
    return { r with clientFds, clientFdsSize := r.clientFdsSize + 1 }

/-- The loop of `close_client` from index `i` on, with `j` the next index to write. The
bound `clientFdsSize` is read anew in every round, and shrinks where `fd` is met.
SOURCE: cw10/zad1/server.c:321-329 -/
def closeLoop (fd : Fd) (i j : ℕ) (r : Registry) : Except Failure Registry :=
  if i ≤ r.clientFdsSize then do
    let x ← load .outOfBounds r.clientFds i
    if x ≠ fd then
      let clientFds ← store .outOfBounds r.clientFds j x
      closeLoop fd (i + 1) (j + 1) { r with clientFds }
    else if fd ∈ r.openFds then
      closeLoop fd (i + 1) j
        { r with openFds := r.openFds.erase fd, clientFdsSize := r.clientFdsSize - 1 }
    else
      .error (.exitError "close fd")  -- `close` failed: the descriptor is not open
  else
    .ok r
termination_by (r.clientFdsSize + 1 - i).toNat

/-- SOURCE: cw10/zad1/server.c:318-331 -/
def closeClient (fd : Fd) (r : Registry) : Except Failure Registry :=
  closeLoop fd 0 0 r

/-- The loop over the clients that a `PING` starts, from index `i` on: count the answer of
the client `fd`. The index the loop ends at is returned, since the caller's `i` is its index.
SOURCE: cw10/zad1/server.c:141-147 -/
def countPing (fd : Fd) (i : ℕ) (r : Registry) : Except Failure (ℕ × Registry) :=
  if i ≤ r.clientFdsSize then do
    let x ← load .outOfBounds r.clientFds i
    if x = fd then
      let pong ← load .outOfBounds r.clientsPong i
      let clientsPong ← store .outOfBounds r.clientsPong i (pong + 1)
      return (i, { r with clientsPong })
    else
      countPing fd (i + 1) r
  else
    .ok (i, r)
termination_by (r.clientFdsSize + 1 - i).toNat

end SystemyOperacyjne.ComputeServer
