import UcasOs.Drivers.Cursor
import UcasOs.Drivers.Printing
import UcasOs.Image.Capacity
import UcasOs.Image.Startup
import UcasOs.Kernel.Contention
import UcasOs.Kernel.Deadline
import UcasOs.Kernel.Handles
import UcasOs.Kernel.Handover
import UcasOs.Kernel.Keys
import UcasOs.Kernel.Rounds
import UcasOs.Kernel.Sequences
import UcasOs.Kernel.Sleep
import UcasOs.Kernel.Stacks
import UcasOs.Kernel.Threads
import UcasOs.Kernel.Timing
import UcasOs.Kernel.Turns
import UcasOs.Libs.Drift
import UcasOs.Libs.Memory
import UcasOs.Libs.Signed
import UcasOs.Libs.Strings
import UcasOs.Arch.FirstRun
import UcasOs.Arch.Crt0
import UcasOs.Arch.Dump
import UcasOs.Arch.Handler
import UcasOs.Arch.Syscall
import UcasOs.Joint.Lockstep
import UcasOs.Joint.Preemption
