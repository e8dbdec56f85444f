import OpenAisg.Retap.Codes

/-!
# The exceptions of the service

The session decides what to do with a failure by its class: an `AisgError` fails
one command, a `LinkReset` also gives the link up, an acknowledged `AisgTimeout`
quarantines it, and what is none of these falls through to the catch-all handler
of the worker.  So what can be proved about the worker hangs on which class an
exception belongs to, and this file fixes that once.

There is one type for every exception the link and session layers can meet, with
the class tests their `except` clauses make.

* `LinkState` — the states of the session; `SessionError` carries one.
* `Exn` — the exceptions.  `AisgError` and its subclasses come first;
  `hdlc.FrameError` is **not** one of them, and neither are the errors of the
  serial port and of the language.
* `Exn.isAisg`, `Exn.isReset`, `Exn.isOsOrAisg`, `Exn.isAckedTimeout` — the
  `isinstance` tests.
* `Exn.str` — `str(e)`, which the session stores, reports and in one place
  searches.
-/

namespace OpenAisg

/-- `session.LinkState`: where the worker believes its session to be. -/
inductive LinkState where
  | closed
  | opening
  | portBusy
  | portLost
  | discovering
  | noDevices
  | connecting
  | connected
  | draining
  | releasing
  | backoff
  | leased
  | shutdown
  deriving DecidableEq, Repr, Inhabited

/-- The value of the enumeration member, as the status reports show it. -/
def LinkState.value : LinkState → String
  | closed => "closed"
  | opening => "opening"
  | portBusy => "port_busy"
  | portLost => "port_lost"
  | discovering => "discovering"
  | noDevices => "no_devices"
  | connecting => "connecting"
  | connected => "connected"
  | draining => "draining"
  | releasing => "releasing"
  | backoff => "backoff"
  | leased => "leased"
  | shutdown => "shutdown"

/-- The classes of the errors that the language and its library raise here.  None of the
`except` clauses of the session names one of them. -/
inductive PyError where
  | structError
  | valueError
  | keyError
  | typeError
  | overflowError
  | indexError
  | attributeError
  | runtimeError
  | invalidState
  deriving DecidableEq, Repr

/-- The exceptions, with the data that their texts and their handlers use. -/
inductive Exn where
  /-- A plain `AisgError`. -/
  | aisgError (msg : String)
  /-- The port's lock is held by another process. -/
  | portBusy (msg : String)
  /-- The adapter does not answer. -/
  | portLost (msg : String)
  /-- No layer-7 response inside the budget. -/
  | aisgTimeout (addr : Byte) (sentNs : Seq) (acked : Bool) (polls : ℕ)
  /-- The secondary dropped the link: DM or FRMR. -/
  | linkReset (addr : Byte) (why : String)
  /-- The link could not be made available for a command. -/
  | sessionError (state : LinkState) (detail : String)
  /-- A procedure answered with a return code other than OK. -/
  | retError (proc code : Byte)
  /-- `hdlc.FrameError`. -/
  | frameError (msg : String)
  /-- `OSError`, which `serial.SerialException` is a subclass of. -/
  | osError (msg : String)
  /-- An error of the language or its library. -/
  | py (cls : PyError) (msg : String)
  deriving DecidableEq, Repr

namespace Exn

/-- `isinstance(e, AisgError)`. -/
def isAisg : Exn → Bool
  | aisgError _ | portBusy _ | portLost _ | aisgTimeout .. | linkReset .. | sessionError ..
  | retError .. => true
  | frameError _ | osError _ | py .. => false

/-- `isinstance(e, LinkReset)`. -/
def isReset : Exn → Bool
  | linkReset .. => true
  | _ => false

/-- `isinstance(e, (OSError, AisgError))`, the test of the two loops that only listen. -/
def isOsOrAisg : Exn → Bool
  | osError _ => true
  | e => e.isAisg

/-- `isinstance(e, AisgTimeout) and e.acked`: the device has the command and may still answer it. -/
def isAckedTimeout : Exn → Bool
  | aisgTimeout _ _ acked _ => acked
  | _ => false

/-- `str(e)`. -/
def str : Exn → String
  | aisgError msg | portBusy msg | portLost msg | frameError msg | osError msg | py _ msg => msg
  | aisgTimeout addr ns acked polls =>
      "no layer-7 response from " ++ hex2 addr ++ " (N(S)=" ++ toString ns.val ++ ", " ++
        (if acked then "acked" else "unacked") ++ ", " ++ toString polls ++ " polls)"
  | linkReset addr why => "link to " ++ hex2 addr ++ " reset: " ++ why
  | sessionError state detail =>
      "link unavailable (" ++ state.value ++ ")" ++ (if detail = "" then "" else ": " ++ detail)
  | retError proc code => "procedure " ++ hex2 proc ++ " failed: " ++ Retap.rcName code

/-- A link reset is an `AisgError`, so the clause for the one has to come first. -/
theorem isAisg_of_isReset {e : Exn} (h : e.isReset = true) : e.isAisg = true := by
  cases e <;> simp_all [isReset, isAisg]

end Exn

end OpenAisg
