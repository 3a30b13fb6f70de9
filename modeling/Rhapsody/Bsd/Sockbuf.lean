import Rhapsody.Bsd.Mbuf

/-! Socket buffers (`bsd/kern/uipc_socket2.c`, `bsd/sys/socketvar.h`). A buffer is the list of
its records and a record the list of its mbufs, told apart by their addresses. `sb_cc` and
`sb_mbcnt` are those of the mbufs queued, as `sballoc` and `sbfree` keep them. -/

namespace Rhapsody.Bsd

inductive SbType
  | soname
  | control
  | data
  deriving DecidableEq

/-- An mbuf of a socket buffer, with its bytes; `rights` are the files of an internalized
`SCM_RIGHTS` message. -/
structure SbMbuf where
  addr : ℕ
  mType : SbType
  isExt : Bool
  mData : ℕ
  bytes : List UInt8
  rights : List ℕ
  deriving DecidableEq

namespace SbMbuf

def mLen (m : SbMbuf) : ℕ := m.bytes.length

def size (m : SbMbuf) : ℕ := 128 + if m.isExt then mclBytes else 0

end SbMbuf

structure Sockbuf where
  mb : List (List SbMbuf)
  hiwat : BitVec 32
  lowat : BitVec 32
  mbmax : BitVec 32
  deriving DecidableEq

def sbMax : ℕ := 262144

namespace Sockbuf

variable (sb : Sockbuf)

def cc : BitVec 32 := .ofNat 32 (sb.mb.flatten.map SbMbuf.mLen).sum

def mbcnt : BitVec 32 := .ofNat 32 (sb.mb.flatten.map SbMbuf.size).sum

def sbspace : ℤ := min (sb.hiwat - sb.cc).toInt (sb.mbmax - sb.mbcnt).toInt

def sbreserve (cc : BitVec 32) : Option Sockbuf :=
  if sbMax * mclBytes / (128 + mclBytes) < cc.toNat then none
  else some { sb with
    hiwat := cc
    mbmax := .ofNat 32 (min (cc.toNat * 2) sbMax)
    lowat := if cc < sb.lowat then cc else sb.lowat }

def compressOne (r : List SbMbuf) (m : SbMbuf) : List SbMbuf :=
  if m.bytes = [] then r
  else
    match r.getLast? with
    | none => [m]
    | some n =>
      if n.isExt = false ∧ n.mData + n.mLen + m.mLen < mlen ∧ n.mType = m.mType then
        r.dropLast ++ [{ n with bytes := n.bytes ++ m.bytes }]
      else r ++ [m]

def sbcompress (r chain : List SbMbuf) : List SbMbuf := chain.foldl compressOne r

def sbappend (chain : List SbMbuf) : Sockbuf :=
  match sbcompress (sb.mb.getLast?.getD []) chain with
  | [] => sb
  | r => { sb with mb := sb.mb.dropLast ++ [r] }

def sbappendcontrol (chain : List SbMbuf) (control : SbMbuf) : Option Sockbuf :=
  if sb.sbspace < control.mLen + (chain.map SbMbuf.mLen).sum then none
  else some { sb with mb := sb.mb ++ [control :: chain] }

end Sockbuf

end Rhapsody.Bsd
