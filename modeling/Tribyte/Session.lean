import Tribyte.Assembly
import Tribyte.Stream

/-!
# Sessions

A session holds a layout, a program and a run of bytes, and takes steps on them. A step that fails
leaves the session as it was, and the next one goes on from there.
-/

namespace Tribyte

structure Session where
  layout : Layout := .v1
  code : List Instruction := []
  bytes : List UInt8 := []
deriving DecidableEq, Repr

inductive Step
  | useName (name : String)
  | useTag (tag : UInt8)
  | assemble (source : Text)
  | push (op arg1 arg2 : Nat)
  | clear
  | encode
  | decode
  | saveImage
  | loadImage
  | transcode (target : Layout)
  | probe
  | append (bytes : List UInt8)
  | truncate (length : Nat)
  | take
  | disassemble
  | reassemble
deriving DecidableEq, Repr

inductive Answer
  | done
  | isImage (answer : Bool)
  | listing (text : Text)
deriving DecidableEq, Repr

namespace Session

def apply (s : Session) : Step → Except Error (Answer × Session)
  | .useName name => do
    return (.done, { s with layout := ← Layout.ofName name })
  | .useTag tag => do
    return (.done, { s with layout := ← Layout.ofTag tag })
  | .assemble source => do
    return (.done, { s with code := s.code ++ (← Assembly.assemble source) })
  | .push op arg1 arg2 => do
    return (.done, { s with code := s.code ++ [← Instruction.ofNats op arg1 arg2] })
  | .clear => .ok (.done, { s with code := [] })
  | .encode => .ok (.done, { s with bytes := Stream.encode s.layout s.code })
  | .decode => do
    return (.done, { s with code := ← Stream.decode s.layout s.bytes })
  | .saveImage => .ok (.done, { s with bytes := (Image.mk s.layout s.code).toBytes })
  | .loadImage => do
    let image ← Image.ofBytes s.bytes
    return (.done, { s with layout := image.layout, code := image.code })
  | .transcode target => do
    return (.done, { s with layout := target,
                            bytes := ← Stream.transcode s.layout target s.bytes })
  | .probe => .ok (.isImage (Image.isImage s.bytes), s)
  | .append bytes => .ok (.done, { s with bytes := s.bytes ++ bytes })
  | .truncate length => .ok (.done, { s with bytes := s.bytes.take length })
  | .take => do
    let (i, size) ← s.layout.readHead s.bytes
    return (.done, { s with code := s.code ++ [i], bytes := s.bytes.drop size })
  | .disassemble => .ok (.listing (Assembly.disassemble s.code), s)
  | .reassemble => do
    return (.done, { s with code := ← Assembly.assemble (Assembly.disassemble s.code) })

def step (s : Session) (e : Step) : Except Error Answer × Session :=
  match s.apply e with
  | .ok (answer, next) => (.ok answer, next)
  | .error cause => (.error cause, s)

def run (s : Session) : List Step → List (Except Error Answer × Session)
  | [] => []
  | e :: es => s.step e :: run (s.step e).2 es

end Session

end Tribyte
