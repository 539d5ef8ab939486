import Mathlib.Logic.Relation
import ChatServer.History

/-! What writing to a client is made of. A relation between views that the steps
keep holds across a queued broadcast and across a direct write. -/
set_option autoImplicit false

namespace ChatServer
open ByteString Memory Relation

def Obs.ofWriting : Obs → Bool
  | .offered _ => true
  | .enqueued _ _ => true
  | .sent _ _ => true
  | .writeFailed => true
  | _ => false

namespace View

/-- One step of a write to client `p`. Only a failed write closes the client. -/
inductive Writes (p : Nat) : View → View → Prop
  | note {v : View} {o : Obs} (ho : o.ofWriting = true) : Writes p v (v.note o)
  | close {v : View} : Writes p v (v.note .writeFailed).markClosed
  | dropAlloc {v : View} : Writes p v v.dropAlloc
  | withSends {v : View} (rest : List SendRes) :
      Writes p v { v with sock := v.sock.withSends rest }
  | withQueue {v : View} (queue : List Pkt) : Writes p v { v with queue := queue }
  | setEpollout {v : View} (on : Bool) : Writes p v (v.setEpollout on p)

def Written (p : Nat) : View → View → Prop := ReflTransGen (Writes p)

namespace Written
variable {p : Nat} {v v' : View}

theorem keeps {K : View → View → Prop} (h : Written p v v') (hrefl : ∀ v, K v v)
    (htrans : ∀ {v v' v''}, K v v' → K v' v'' → K v v'')
    (hstep : ∀ {v v'}, Writes p v v' → K v v') : K v v' :=
  ReflTransGen.trans_induction_on h hrefl hstep (fun _ _ => htrans)

theorem refl (v : View) : Written p v v := ReflTransGen.refl

theorem step (h : Writes p v v') : Written p v v' := .single h

theorem trans {v'' : View} (h : Written p v v') (h' : Written p v' v'') : Written p v v'' :=
  ReflTransGen.trans h h'

theorem accept (v : View) (path : Path) (bs : Bytes) :
    Written p v { v with sock := v.sock.accept path bs } := by
  unfold Sock.accept
  split
  · exact refl v
  · exact step (.note rfl)

/-- Where `client_try_write` fails, its last step is the entry for the failed write. -/
theorem tryWriteLoop (sends : List SendRes) (v : View) :
    ((v.tryWriteLoop p sends).2 ≠ -1 ∧ Written p v (v.tryWriteLoop p sends).1) ∨
    ∃ u, Written p v u ∧ v.tryWriteLoop p sends = (u.note .writeFailed,-1) := by
  have hret : (0 : Int) ≠ -1 := by decide
  have hempty : ∀ (i : ClientInfo) (k : Sock), (0 : Int) ≠ -1 ∧
      Written p ⟨i,k,[]⟩ ((View.mk i k []).setEpollout false p) :=
    fun i k => ⟨hret,step (.setEpollout false)⟩
  induction sends generalizing v with
  | nil =>
    obtain ⟨i,k,queue⟩ := v
    cases queue with
    | nil => exact .inl (hempty i k)
    | cons x q => exact .inl ⟨hret,refl _⟩
  | cons r rest ih =>
    obtain ⟨i,k,queue⟩ := v
    cases queue with
    | nil => exact .inl (hempty i k)
    | cons x q =>
      have hrest : Written p ⟨i,k,x :: q⟩ ⟨i,k.withSends rest,x :: q⟩ := step (.withSends rest)
      have hcont : ∀ {u : View}, Written p ⟨i,k,x :: q⟩ u →
          ((u.tryWriteLoop p rest).2 ≠ -1 ∧ Written p ⟨i,k,x :: q⟩ (u.tryWriteLoop p rest).1) ∨
          ∃ u', Written p ⟨i,k,x :: q⟩ u' ∧ u.tryWriteLoop p rest = (u'.note .writeFailed,-1) := by
        intro u hu
        rcases ih u with ⟨hok,hw⟩ | ⟨u',hw,hres⟩
        · exact .inl ⟨hok,hu.trans hw⟩
        · exact .inr ⟨u',hu.trans hw,hres⟩
      unfold View.tryWriteLoop
      cases r with
      | wouldBlock => exact .inl ⟨hret,hrest⟩
      | interrupted => exact hcont hrest
      | fails => exact .inr ⟨_,hrest,rfl⟩
      | accepts n =>
        have htaken := hrest.trans (accept _ .queued (x.unsent.take n))
        simp only
        split
        · exact .inr ⟨_,htaken,rfl⟩
        · split
          · exact hcont (htaken.trans (step (.withQueue _)))
          · exact hcont (htaken.trans (step (.withQueue _)))

theorem sendNow (v : View) : Written p v (v.sendNow p) := by
  unfold View.sendNow View.tryWrite
  rcases tryWriteLoop (p := p) v.sock.oracle.sends v with ⟨hret,hw⟩ | ⟨u,hw,hres⟩
  · simp only [if_neg hret]
    exact hw
  · simp only [hres,if_true]
    exact hw.trans (step .close)

theorem arm (v : View) : Written p v (v.arm p) := by
  unfold View.arm
  split
  · exact refl v
  · exact step (.setEpollout true)

theorem offer (v : View) (index : Nat) (own : Bool) (msg : Bytes) :
    Written p v (v.offer p index own msg) := by
  have hnote : Written p v (v.noteOffer index own msg.length) := step (.note rfl)
  have hdrop := hnote.trans (step .dropAlloc)
  have hqueue : Written p v ((v.noteOffer index own msg.length).dropAlloc.enqueue index msg) :=
    (hdrop.trans (step (.withQueue _))).trans (step (.note rfl))
  unfold View.offer
  simp only
  split
  · exact hnote
  · split
    · exact hnote
    · split
      · exact hdrop
      · split
        · exact hdrop.trans (arm _)
        · split
          · exact (hqueue.trans (sendNow _)).trans (arm _)
          · exact hqueue.trans (arm _)

theorem writeAll (v : View) (buffer : Bytes) :
    Written p v { v with sock := (v.sock.writeAll buffer).1 } :=
  (step (.withSends (ChatServer.writeAll v.sock.oracle.sends buffer).rest)).trans
    (accept _ .direct (ChatServer.writeAll v.sock.oracle.sends buffer).taken)

theorem direct (v : View) (msgType : UInt8) (msg : Bytes) :
    Written p (v.note (.direct ⟨msgType,msg,v.headOffset,v.info.closed,v.sock.oracle.sends⟩))
      (v.direct msgType msg).1 := by
  have hheader := writeAll (p := p) (v.note (.direct ⟨msgType,msg,v.headOffset,v.info.closed,
    v.sock.oracle.sends⟩)) (createHeader msg.length msgType true).bytes
  have hpayload := hheader.trans (writeAll _ msg)
  unfold View.direct Sock.writeFrame
  simp only
  split
  · exact hheader
  · split
    · exact hpayload
    · exact hpayload

end Written
end View
end ChatServer
