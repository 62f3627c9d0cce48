/-!
# Sample diagram

The diagram that is written where no diagram exists yet.
-/

namespace UmlDraft

/-- The lines of the sample diagram. -/
def sampleLines : List String :=
  ["@startuml",
    "title Clinic Scheduling",
    "",
    "skinparam classAttributeIconSize 0",
    "",
    "' Shared base for everyone with a record at the clinic",
    "abstract class Person \x7b",
    "  - fullName: String",
    "  - birthDate: Date",
    "  + \x7babstract\x7d describe(): String",
    "  + isAdult(): boolean",
    "\x7d",
    "",
    "class Patient \x7b",
    "  - patientId: String",
    "  - allergies: List<String>",
    "  + book(slot: Slot): Appointment",
    "  + cancel(appointment: Appointment): void",
    "\x7d",
    "",
    "class Doctor \x7b",
    "  - licence: String",
    "  - specialty: String",
    "  + acceptPatient(patient: Patient): boolean",
    "  + prescribe(patient: Patient, drug: String, days: int): void",
    "\x7d",
    "",
    "class Appointment \x7b",
    "  - reference: String",
    "  - slot: Slot",
    "  # notes: String",
    "  + reschedule(slot: Slot): void",
    "  + \x7bstatic\x7d nextReference(): String",
    "\x7d",
    "",
    "class Slot \x7b",
    "  ~ start: Date",
    "  ~ minutes: int",
    "\x7d",
    "",
    "interface Billable \x7b",
    "  + invoiceTotal(): double",
    "  + markPaid(receipt: String): void",
    "\x7d",
    "",
    "' Generalization: patients and doctors are people",
    "Person <|-- Patient",
    "Person <|-- Doctor",
    "",
    "' Realization",
    "Appointment ..|> Billable",
    "",
    "' Associations are not turned into code",
    "Doctor \"1\" o-- \"0..*\" Appointment : handles >",
    "Patient \"1\" --> \"0..*\" Appointment : attends >",
    "Appointment .> Slot",
    "",
    "@enduml"]

/-- The text of the sample diagram. Every line ends with a line feed. -/
def sampleDiagram : String :=
  "\n".intercalate sampleLines ++ "\n"

end UmlDraft
