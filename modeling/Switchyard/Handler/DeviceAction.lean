import Switchyard.Client.Bench

/-!
# Commands for one device

`beep`, `reboot`, `reset` and `switch` each make one request of one device. The device is named by
the second word. One that is unknown, or locked by somebody else, makes the command wait. A reset
wipes a device, so it holds the lock while its request runs. The switch command line is available on
some models only.
-/

namespace Switchyard.Handler

variable {ω : Type}

/-- The command with the device it concerns, in its canonical spelling if there is one. -/
def concerning (target : String) (c : Command) : Command :=
  { c with device := some ((Mac.canonical? target).getD target) }

/-- The command that waits for a reason. -/
def waiting (reason : String) (c : Command) : Command := c.finish (.pending reason)

/-- The command with the outcome of its request. The answer is kept without blanks at its ends. -/
def answered (answer : Except Fault String) (c : Command) : Command :=
  match answer with
  | .ok output => { c with result := Text.trim output, status := .ok }
  | .error fault => c.finish (.error fault.message)

/-- Makes a request and takes its outcome. -/
def ask (p : Protocol ω) (r : Device.Request) : Handler (Bench ω) := fun c n ↦
  let (answer, n) := Bench.request p r n
  (answered answer c, n)

/-- An action that needs no lock of its own. -/
def simple (p : Protocol ω) (action target ip user password : String) :
    Handler (Bench ω) := fun c n ↦
  let c := concerning target c
  match n.inventory.find? target with
  | none => (waiting "device not found" c, n)
  | some d =>
    if d.locked then (waiting "device locked" c, n)
    else ask p { action, mac := d.mac, ip, user, password } c n

/-- A reset, which holds the lock of its device while the request runs. -/
def reset (p : Protocol ω) (target ip user password : String) : Handler (Bench ω) := fun c n ↦
  let c := concerning target c
  match n.inventory.find? target with
  | none => (waiting "device not found" c, n)
  | some d =>
    match n.inventory.tryAcquire d.mac with
    | .error _ => (waiting "device not found" c, n)
    | .ok (false, _) => (waiting "device locked" c, n)
    | .ok (true, held) =>
      let (c, n) := ask p { action := "reset", mac := d.mac, ip, user, password } c
        { n with inventory := held }
      match n.inventory.release d.mac with
      | .ok released => (c, { n with inventory := released })
      | .error _ => (c, n)

/-- Whether devices of a model have a command line. -/
def hasCommandLine (model : String) : Bool :=
  ["EH7", "EHG7"].any fun start ↦ start.toList.isPrefixOf model.toList

/-- Words for the command line of a device. -/
def switch (p : Protocol ω) (target user password args : String) : Handler (Bench ω) := fun c n ↦
  let c := concerning target c
  match n.inventory.find? target with
  | none => (waiting "device not found" c, n)
  | some d =>
    if d.model.isEmpty then (c.finish (.error "invalid device model"), n)
    else if !hasCommandLine d.model then (c.finish (.error "switch cli not available"), n)
    else if d.locked then (waiting "device locked" c, n)
    else
      ask p { action := "switch", mac := d.mac, ip := d.ip, user, password, args } c n

/-- The commands for one device. -/
def deviceAction (p : Protocol ω) : Handler (Bench ω) := fun c n ↦
  match c.words with
  | ["beep", target, ip] => simple p "beep" target ip "" "" c n
  | ["reboot", target, ip, user, password] => simple p "reboot" target ip user password c n
  | ["reset", target, ip, user, password] => reset p target ip user password c n
  | "switch" :: target :: user :: password :: arg :: args =>
    switch p target user password (Text.join " " (arg :: args)) c n
  | _ => (c.invalid, n)

/-- The first words of the commands for one device. -/
def deviceVerbs : List String := ["beep", "reboot", "reset", "switch"]

end Switchyard.Handler
