import Lookahead.Describe
import Lookahead.Script
import Lookahead.Workload.Clocks
import Lookahead.Workload.Ring
import Lookahead.Proofs.Order
import Lookahead.Proofs.Timeline
import Lookahead.Proofs.System
import Lookahead.Proofs.Handler
import Lookahead.Proofs.Cohort
import Lookahead.Proofs.Rounds
import Lookahead.Proofs.Gathering
import Lookahead.Proofs.Batches
import Lookahead.Proofs.Handing
import Lookahead.Proofs.Taking
import Lookahead.Proofs.Clock
import Lookahead.Proofs.Effect
import Lookahead.Proofs.Tracking
import Lookahead.Proofs.Build
import Lookahead.Proofs.Wiring
import Lookahead.Proofs.Halting
import Lookahead.Proofs.Determinacy
import Lookahead.Proofs.OnTime
import Lookahead.Proofs.Agreement
import Lookahead.Proofs.Meeting
import Lookahead.Proofs.Causality
import Lookahead.Proofs.Accounts
import Lookahead.Proofs.Conservation
import Lookahead.Proofs.Delivery
import Lookahead.Proofs.Lanes
import Lookahead.Proofs.Sequential
import Lookahead.Proofs.Following
import Lookahead.Proofs.Pursuit
import Lookahead.Proofs.Refinement
import Lookahead.Proofs.Moves
import Lookahead.Proofs.Gates
import Lookahead.Proofs.Pace
import Lookahead.Proofs.Leaving
import Lookahead.Proofs.Progress
import Lookahead.Proofs.Visits
import Lookahead.Proofs.Lockstep
import Lookahead.Proofs.Effort
import Lookahead.Proofs.Faults
import Lookahead.Proofs.RootCause
import Lookahead.Proofs.Drain
import Lookahead.Proofs.Turns
import Lookahead.Proofs.Course
import Lookahead.Proofs.Firings
import Lookahead.Proofs.Upkeep
import Lookahead.Proofs.Cadence
import Lookahead.Proofs.Restarts
import Lookahead.Proofs.Mail
import Lookahead.Proofs.Stages
import Lookahead.Proofs.Deeds
import Lookahead.Proofs.Interlude
import Lookahead.Proofs.Chronicle
import Lookahead.Proofs.Record
import Lookahead.Proofs.Handshake
import Lookahead.Proofs.Untimed
import Lookahead.Proofs.Rendezvous
import Lookahead.Proofs.Attendance
import Lookahead.Proofs.Epochs
import Lookahead.Proofs.Descent
import Lookahead.Proofs.Termination
import Lookahead.Proofs.Truncation
import Lookahead.Proofs.Stopping
import Lookahead.Proofs.Pairing
import Lookahead.Proofs.Ties
import Lookahead.Proofs.Seats
import Lookahead.Proofs.Exchange
import Lookahead.Proofs.Legs
import Lookahead.Proofs.Precedence
import Lookahead.Proofs.Channel
import Lookahead.Proofs.FirstCome
import Lookahead.Proofs.Answers
import Lookahead.Proofs.Failing
import Lookahead.Proofs.Provenance
import Lookahead.Proofs.Errors
import Lookahead.Proofs.Stability
import Lookahead.Proofs.Service
import Lookahead.Proofs.Deferral
import Lookahead.Proofs.Incidents
import Lookahead.Proofs.Lifetimes
import Lookahead.Proofs.Registration
import Lookahead.Proofs.Arrivals
import Lookahead.Proofs.Acceptance
import Lookahead.Proofs.Profile
import Lookahead.Proofs.Inbox
import Lookahead.Proofs.Grammar
import Lookahead.Proofs.Clockwork
import Lookahead.Proofs.Circle
import Lookahead.Proofs.Tokens
import Lookahead.Proofs.Roundabout
import Lookahead.Proofs.Averages
